import AuraKernel.Sched.Sched
import Mathlib.Algebra.BigOperators.Fin
import Mathlib.Algebra.Order.BigOperators.Group.Finset

namespace AuraKernel
namespace Sched

open Machine

/-!
# Round robin

The scan of `sched_yield` goes around the whole table, the rotation around the
tasks that were created.  The two agree because the created tasks are the first
slots, all of them are ready except the one that runs, and the others are
blocked.
-/

/-! ## The scan -/

section Scan

variable {tasks : Fin 8 → Task} {prev : Fin 8}

/-- The scan finds the first ready candidate. -/
theorem findReady_of_first {remaining i distance : Nat} (bound : distance < remaining)
    (before : ∀ m, i ≤ m → m < i + distance → (tasks (candidate prev m)).state ≠ .ready)
    (ready : (tasks (candidate prev (i + distance))).state = .ready) :
    findReady tasks prev remaining i = some (candidate prev (i + distance)) := by
  induction distance generalizing remaining i with
  | zero =>
      cases remaining with
      | zero => omega
      | succ remaining =>
          rw [Nat.add_zero] at ready
          rw [findReady, if_pos ready]
          rfl
  | succ distance inductionHypothesis =>
      cases remaining with
      | zero => omega
      | succ remaining =>
          have shift : i + (distance + 1) = i + 1 + distance := by omega
          rw [shift] at ready ⊢
          rw [findReady, if_neg (before i (Nat.le_refl _) (by omega))]
          exact inductionHypothesis (by omega) (fun m low high => before m (by omega) (by omega))
            ready

theorem findReady_of_none {remaining i : Nat}
    (none : ∀ m, i ≤ m → m < i + remaining → (tasks (candidate prev m)).state ≠ .ready) :
    findReady tasks prev remaining i = Option.none := by
  induction remaining generalizing i with
  | zero => rfl
  | succ remaining inductionHypothesis =>
      rw [findReady, if_neg (none i (Nat.le_refl _) (by omega))]
      exact inductionHypothesis fun m low high => none m (by omega) (by omega)

end Scan

/-! ## The invariant -/

/-- The created tasks are the first slots: the current one runs, the others are
ready, and the slots behind them are blocked. -/
structure SchedInv (s : SchedState) : Prop where
  count_le : s.taskCount ≤ 8
  cur_lt : s.curTask.val < s.taskCount
  running : (s.tasks s.curTask).state = .running
  ready : ∀ i : Fin 8, i.val < s.taskCount → i ≠ s.curTask → (s.tasks i).state = .ready
  blocked : ∀ i : Fin 8, s.taskCount ≤ i.val → (s.tasks i).state = .blocked
  pid : ∀ i : Fin 8, (s.tasks i).pid = i

/-- The task after `cur` in the rotation. -/
def successor (cur : Fin 8) (taskCount : Nat) : Fin 8 :=
  if cur.val + 1 < taskCount then candidate cur 1 else bootTask

theorem successor_val {cur : Fin 8} {taskCount : Nat} (small : taskCount ≤ 8)
    (bound : cur.val < taskCount) : (successor cur taskCount).val = (cur.val + 1) % taskCount := by
  unfold successor
  by_cases inside : cur.val + 1 < taskCount
  · rw [if_pos inside, Nat.mod_eq_of_lt inside]
    exact Nat.mod_eq_of_lt (by omega)
  · rw [if_neg inside]
    have last : cur.val + 1 = taskCount := by omega
    rw [last, Nat.mod_self]
    rfl

section Yield

variable {s : SchedState}

theorem SchedInv.not_ready_cur (inv : SchedInv s) : (s.tasks s.curTask).state ≠ .ready := by
  rw [inv.running]
  decide

theorem SchedInv.not_ready_blocked (inv : SchedInv s) {i : Fin 8} (bound : s.taskCount ≤ i.val) :
    (s.tasks i).state ≠ .ready := by
  rw [inv.blocked i bound]
  decide

/-- The scan finds the next task of the rotation, unless there is only one. -/
theorem SchedInv.findReady_eq (inv : SchedInv s) :
    findReady s.tasks s.curTask taskMax 1 =
      if s.taskCount = 1 then none else some (successor s.curTask s.taskCount) := by
  have small := inv.count_le
  have bound := inv.cur_lt
  by_cases single : s.taskCount = 1
  · rw [if_pos single]
    refine findReady_of_none fun m low high => ?_
    by_cases own : candidate s.curTask m = s.curTask
    · rw [own]
      exact inv.not_ready_cur
    · refine inv.not_ready_blocked ?_
      have different : (candidate s.curTask m).val ≠ s.curTask.val := fun same => own (Fin.ext same)
      omega
  · rw [if_neg single]
    unfold successor
    by_cases inside : s.curTask.val + 1 < s.taskCount
    · rw [if_pos inside]
      have place : (candidate s.curTask 1).val = s.curTask.val + 1 := Nat.mod_eq_of_lt (by omega)
      refine @findReady_of_first s.tasks s.curTask taskMax 1 0 (by decide)
        (fun m low high => by omega) (inv.ready _ ?_ ?_)
      · rw [Nat.add_zero, place]
        exact inside
      · intro same
        rw [Nat.add_zero] at same
        have := congrArg Fin.val same
        omega
    · -- the current task is the last one: the scan passes the blocked slots and wraps
      rw [if_neg inside]
      have wraps : candidate s.curTask (1 + (7 - s.curTask.val)) = bootTask := by
        have sum : s.curTask.val + (1 + (7 - s.curTask.val)) = 8 := by omega
        refine Fin.ext (show (s.curTask.val + (1 + (7 - s.curTask.val))) % 8 = 0 from ?_)
        rw [sum]
      rw [← wraps]
      refine findReady_of_first (show 7 - s.curTask.val < 8 by omega) ?_ ?_
      · intro m low high
        have place : (candidate s.curTask m).val = s.curTask.val + m := Nat.mod_eq_of_lt (by omega)
        exact inv.not_ready_blocked (by omega)
      · rw [wraps]
        refine inv.ready 0 (by omega) fun same => ?_
        have := congrArg Fin.val same
        simp only [Fin.val_zero] at this
        omega

/-- A yield with only one task does nothing. -/
theorem SchedInv.schedYield_single (inv : SchedInv s) (single : s.taskCount = 1) :
    schedYield s = (none, s) := by
  unfold schedYield
  dsimp only
  rw [inv.findReady_eq, if_pos single]

/-- A yield with several tasks moves on by one, and charges a tick to the task
that gives up the processor. -/
theorem SchedInv.schedYield_several (inv : SchedInv s) (several : s.taskCount ≠ 1) :
    ∃ s', schedYield s = (some (successor s.curTask s.taskCount), s') ∧
      s'.curTask = successor s.curTask s.taskCount ∧ s'.taskCount = s.taskCount ∧
      s'.mem = s.mem ∧ successor s.curTask s.taskCount ≠ s.curTask ∧
      s'.tasks (successor s.curTask s.taskCount) =
        { s.tasks (successor s.curTask s.taskCount) with state := .running } ∧
      s'.tasks s.curTask =
        { s.tasks s.curTask with
          state := .ready
          ticks := wrap64 ((s.tasks s.curTask).ticks + 1) } ∧
      ∀ i, i ≠ s.curTask → i ≠ successor s.curTask s.taskCount → s'.tasks i = s.tasks i := by
  have bound := inv.cur_lt
  have different : successor s.curTask s.taskCount ≠ s.curTask := by
    intro same
    have place := successor_val inv.count_le bound
    rw [same] at place
    by_cases inside : s.curTask.val + 1 < s.taskCount
    · rw [Nat.mod_eq_of_lt inside] at place
      omega
    · have last : s.curTask.val + 1 = s.taskCount := by omega
      rw [last, Nat.mod_self] at place
      omega
  unfold schedYield
  dsimp only
  rw [inv.findReady_eq, if_neg several]
  dsimp only
  rw [if_pos inv.running]
  refine ⟨_, rfl, rfl, rfl, rfl, different, ?_, ?_, ?_⟩
  · dsimp only
    rw [SchedState.setTask_of_ne _ _ _ different, SchedState.setTask_self,
      SchedState.setTask_of_ne _ _ _ different]
  · dsimp only
    rw [SchedState.setTask_self, SchedState.setTask_of_ne _ _ _ (Ne.symm different),
      SchedState.setTask_self]
  · intro i notCur notNext
    dsimp only
    rw [SchedState.setTask_of_ne _ _ _ notCur, SchedState.setTask_of_ne _ _ _ notNext,
      SchedState.setTask_of_ne _ _ _ notCur]

/-- A yield keeps the invariant and rotates. -/
theorem SchedInv.yield (inv : SchedInv s) :
    SchedInv (schedYield s).2 ∧ (schedYield s).2.taskCount = s.taskCount ∧
      (schedYield s).2.curTask.val = (s.curTask.val + 1) % s.taskCount := by
  have bound := inv.cur_lt
  by_cases single : s.taskCount = 1
  · rw [inv.schedYield_single single]
    refine ⟨inv, rfl, ?_⟩
    rw [single, Nat.mod_one]
    exact Nat.lt_one_iff.mp (single ▸ bound)
  · rcases inv.schedYield_several single with
      ⟨s', yields, cur, count, _, different, next, old, others⟩
    have place := successor_val inv.count_le bound
    rw [yields]
    refine ⟨?_, count, by rw [cur]; exact place⟩
    constructor
    case count_le =>
      rw [count]
      exact inv.count_le
    case cur_lt =>
      rw [cur, count, place]
      exact Nat.mod_lt _ (by omega)
    case running =>
      rw [cur, next]
    case ready =>
      intro i inside notCur
      rw [cur] at notCur
      rw [count] at inside
      by_cases isOld : i = s.curTask
      · rw [isOld, old]
      · rw [others i isOld notCur]
        exact inv.ready i inside isOld
    case blocked =>
      intro i outside
      rw [count] at outside
      have notOld : i ≠ s.curTask := fun same => by
        rw [same] at outside
        omega
      have notNext : i ≠ successor s.curTask s.taskCount := fun same => by
        rw [same, place] at outside
        have := Nat.mod_lt (s.curTask.val + 1) (show 0 < s.taskCount by omega)
        omega
      rw [others i notOld notNext]
      exact inv.blocked i outside
    case pid =>
      intro i
      by_cases isOld : i = s.curTask
      · rw [isOld, old]
        exact inv.pid _
      · by_cases isNext : i = successor s.curTask s.taskCount
        · rw [isNext, next]
          exact inv.pid _
        · rw [others i isOld isNext]
          exact inv.pid i

/-- Creating a task fails without effect or fills the next slot. -/
theorem schedCreateTask_cases (image : Image) (name : Option (List UInt8)) (entry : Nat)
    (s : SchedState) :
    schedCreateTask image name entry s = (-1, s) ∨
      ∃ room : s.taskCount < 8, ∃ newName mem, schedCreateTask image name entry s =
        ((s.taskCount : Int), { s.setTask ⟨s.taskCount, room⟩
            { pid := s.taskCount, name := newName, state := .ready, ticks := 0 } with
          taskCount := s.taskCount + 1
          mem := mem }) := by
  unfold schedCreateTask
  cases name with
  | none => exact Or.inl rfl
  | some name =>
      dsimp only
      by_cases null : entry = 0
      · exact Or.inl (if_pos null)
      rw [if_neg null]
      by_cases room : s.taskCount < 8
      · rw [dif_pos room]
        exact Or.inr ⟨room, _, _, rfl⟩
      · exact Or.inl (dif_neg room)

theorem SchedInv.create (inv : SchedInv s) (image : Image) (name : Option (List UInt8))
    (entry : Nat) : SchedInv (schedCreateTask image name entry s).2 := by
  rcases schedCreateTask_cases image name entry s with failed | ⟨room, newName, mem, created⟩
  · rw [failed]
    exact inv
  · rw [created]
    have bound := inv.cur_lt
    have fresh : s.curTask ≠ ⟨s.taskCount, room⟩ := fun same => by
      have := congrArg Fin.val same
      dsimp only at this
      omega
    constructor
    case count_le => exact room
    case cur_lt => exact Nat.lt_succ_of_lt bound
    case running =>
      dsimp only
      rw [SchedState.setTask_curTask, SchedState.setTask_of_ne _ _ _ fresh]
      exact inv.running
    case ready =>
      intro i inside notCur
      dsimp only at inside notCur ⊢
      by_cases isNew : i = ⟨s.taskCount, room⟩
      · rw [isNew, SchedState.setTask_self]
      · rw [SchedState.setTask_of_ne _ _ _ isNew]
        have notLast : i.val ≠ s.taskCount := fun same => isNew (Fin.ext same)
        exact inv.ready i (by omega) notCur
    case blocked =>
      intro i outside
      dsimp only at outside ⊢
      have old : i ≠ ⟨s.taskCount, room⟩ := fun same => by
        have := congrArg Fin.val same
        dsimp only at this
        omega
      rw [SchedState.setTask_of_ne _ _ _ old]
      exact inv.blocked i (by omega)
    case pid =>
      intro i
      dsimp only
      by_cases isNew : i = ⟨s.taskCount, room⟩
      · rw [isNew, SchedState.setTask_self]
      · rw [SchedState.setTask_of_ne _ _ _ isNew]
        exact inv.pid i

end Yield

/-- `sched_init` establishes the invariant. -/
theorem schedInit_inv (image : Image) (mem : Mem) : SchedInv (schedInit image mem) where
  count_le := (by decide : 1 ≤ 8)
  cur_lt := (by decide : (0 : Fin 8).val < 1)
  running := rfl
  ready := fun i bound notCur => absurd (Fin.ext (Nat.lt_one_iff.mp bound)) notCur
  blocked := fun i bound => by
    have notZero : i ≠ 0 := fun same => by
      rw [same] at bound
      exact absurd (show 1 ≤ 0 from bound) (by decide)
    exact congrArg Task.state (if_neg notZero)
  pid := fun i => by
    by_cases isZero : i = 0
    · rw [isZero]
      rfl
    · exact congrArg Task.pid (if_neg isZero)

/-! ## Runs -/

/-- A scheduler with the number of yields that have switched tasks, in total
and by the task that gave up the processor. -/
structure Session where
  sched : SchedState
  givenUp : Fin 8 → Nat
  switches : Nat

def Session.yield (session : Session) : Session :=
  match schedYield session.sched with
  | (none, sched) => { session with sched := sched }
  | (some _, sched) =>
      { sched := sched
        givenUp := Function.update session.givenUp session.sched.curTask
          (session.givenUp session.sched.curTask + 1)
        switches := session.switches + 1 }

/-- The session after `sched_create_task`. -/
def Session.create (image : Image) (name : Option (List UInt8)) (entry : Nat)
    (session : Session) : Session :=
  { session with sched := (schedCreateTask image name entry session.sched).2 }

/-- The session after `sched_init`. -/
def Session.init (image : Image) (mem : Mem) : Session where
  sched := schedInit image mem
  givenUp := fun _ => 0
  switches := 0

/-- The sessions that can be reached from `sched_init`. -/
inductive Session.Reachable (image : Image) (mem : Mem) : Session → Prop
  | init : Reachable image mem (Session.init image mem)
  | create {session : Session} (name : Option (List UInt8)) (entry : Nat) :
      Reachable image mem session → Reachable image mem (session.create image name entry)
  | yield {session : Session} : Reachable image mem session → Reachable image mem session.yield

structure SessionInv (session : Session) : Prop where
  sched : SchedInv session.sched
  ticks : ∀ i, (session.sched.tasks i).ticks = wrap64 (session.givenUp i)
  unused : ∀ i : Fin 8, session.sched.taskCount ≤ i.val → session.givenUp i = 0
  total : ∑ i, session.givenUp i = session.switches

section Sessions

variable {session : Session} {image : Image} {mem : Mem}

theorem sum_update_succ (count : Fin 8 → Nat) (i : Fin 8) :
    ∑ j, Function.update count i (count i + 1) j = ∑ j, count j + 1 := by
  rw [Finset.sum_update_of_mem (Finset.mem_univ i), Nat.add_right_comm,
    ← Finset.sum_sdiff (Finset.subset_univ {i}), Finset.sum_singleton, Nat.add_comm (count i)]

theorem SessionInv.yield_single (inv : SessionInv session)
    (single : session.sched.taskCount = 1) : session.yield = session := by
  unfold Session.yield
  rw [inv.sched.schedYield_single single]

theorem SessionInv.yield_sched (inv : SessionInv session) :
    session.yield.sched = (schedYield session.sched).2 := by
  by_cases single : session.sched.taskCount = 1
  · rw [inv.yield_single single, inv.sched.schedYield_single single]
  · rcases inv.sched.schedYield_several single with ⟨s', yields, _⟩
    unfold Session.yield
    rw [yields]

theorem SessionInv.yield_switches (inv : SessionInv session)
    (several : session.sched.taskCount ≠ 1) : session.yield.switches = session.switches + 1 := by
  rcases inv.sched.schedYield_several several with ⟨s', yields, _⟩
  unfold Session.yield
  rw [yields]

theorem SessionInv.yield (inv : SessionInv session) : SessionInv session.yield := by
  by_cases single : session.sched.taskCount = 1
  · rw [inv.yield_single single]
    exact inv
  · rcases inv with ⟨sched, ticks, unused, total⟩
    have bound := sched.cur_lt
    rcases sched.schedYield_several single with
      ⟨s', yields, _, count, _, different, next, old, others⟩
    have sched' := sched.yield.1
    unfold Session.yield
    rw [yields] at sched' ⊢
    refine ⟨sched', fun i => ?_, fun i outside => ?_, ?_⟩
    · dsimp only
      by_cases isOld : i = session.sched.curTask
      · rw [isOld, old, Function.update_self]
        dsimp only
        rw [ticks]
        unfold wrap64
        exact Nat.mod_add_mod _ _ _
      · rw [Function.update_of_ne isOld, ← ticks]
        by_cases isNext : i = successor session.sched.curTask session.sched.taskCount
        · rw [isNext, next]
        · rw [others i isOld isNext]
    · dsimp only at outside ⊢
      rw [count] at outside
      have notOld : i ≠ session.sched.curTask := fun same => by
        rw [same] at outside
        omega
      rw [Function.update_of_ne notOld]
      exact unused i outside
    · dsimp only
      rw [sum_update_succ, total]

theorem SessionInv.create (inv : SessionInv session) (name : Option (List UInt8)) (entry : Nat) :
    SessionInv (session.create image name entry) := by
  rcases inv with ⟨sched, ticks, unused, total⟩
  refine ⟨sched.create image name entry, ?_, ?_, total⟩
  · intro i
    unfold Session.create
    rcases schedCreateTask_cases image name entry session.sched with
      failed | ⟨room, newName, mem, created⟩
    · rw [failed]
      exact ticks i
    · rw [created]
      dsimp only
      by_cases isNew : i = ⟨session.sched.taskCount, room⟩
      · rw [isNew, SchedState.setTask_self, unused _ (Nat.le_refl _)]
        rfl
      · rw [SchedState.setTask_of_ne _ _ _ isNew]
        exact ticks i
  · intro i outside
    refine unused i ?_
    unfold Session.create at outside
    rcases schedCreateTask_cases image name entry session.sched with
      failed | ⟨room, newName, mem, created⟩
    · rw [failed] at outside
      exact outside
    · rw [created] at outside
      dsimp only at outside
      omega

theorem Session.Reachable.inv (reachable : Session.Reachable image mem session) :
    SessionInv session := by
  induction reachable with
  | init =>
      refine ⟨schedInit_inv image mem, fun i => ?_, fun _ _ => rfl, ?_⟩
      · by_cases isZero : i = 0
        · exact congrArg Task.ticks (if_pos isZero)
        · exact congrArg Task.ticks (if_neg isZero)
      · exact Finset.sum_const_zero
  | create name entry _ inductionHypothesis => exact inductionHypothesis.create name entry
  | yield _ inductionHypothesis => exact inductionHypothesis.yield

/-! ## The rotation -/

/-- After `count` further yields the rotation has moved on by `count`. -/
theorem SessionInv.iterate (inv : SessionInv session) (count : Nat) :
    SessionInv (Session.yield^[count] session) ∧
      (Session.yield^[count] session).sched.taskCount = session.sched.taskCount ∧
      (Session.yield^[count] session).sched.curTask.val =
        (session.sched.curTask.val + count) % session.sched.taskCount := by
  induction count with
  | zero => exact ⟨inv, rfl, (Nat.mod_eq_of_lt inv.sched.cur_lt).symm⟩
  | succ count inductionHypothesis =>
      rcases inductionHypothesis with ⟨inv', sameCount, place⟩
      rw [Function.iterate_succ_apply']
      rcases inv'.sched.yield with ⟨_, kept, moved⟩
      refine ⟨inv'.yield, ?_, ?_⟩
      · rw [inv'.yield_sched, kept, sameCount]
      · rw [inv'.yield_sched, moved, sameCount, place, Nat.mod_add_mod, Nat.add_assoc]

theorem SessionInv.iterate_switches (inv : SessionInv session)
    (several : session.sched.taskCount ≠ 1) (count : Nat) :
    (Session.yield^[count] session).switches = session.switches + count := by
  induction count with
  | zero => rfl
  | succ count inductionHypothesis =>
      rcases inv.iterate count with ⟨inv', sameCount, _⟩
      rw [Function.iterate_succ_apply', inv'.yield_switches (sameCount ▸ several),
        inductionHypothesis, Nat.add_assoc]

/-- In a window of `n` consecutive numbers exactly one is congruent to a given one. -/
theorem existsUnique_mod {start n target : Nat} (bound : target < n)
    (different : target ≠ start % n) :
    ∃! m, 0 < m ∧ m < n ∧ (start + m) % n = target := by
  have positive : 0 < n := by omega
  have startLt := Nat.mod_lt start positive
  have shift : ∀ m, (start + m) % n = (start % n + m) % n := fun m => (Nat.mod_add_mod _ _ _).symm
  have reduce : ∀ m, m < n → (start + m) % n =
      if start % n + m < n then start % n + m else start % n + m - n := by
    intro m small
    rw [shift]
    by_cases inside : start % n + m < n
    · rw [if_pos inside, Nat.mod_eq_of_lt inside]
    · rw [if_neg inside, Nat.mod_eq_sub_mod (by omega), Nat.mod_eq_of_lt (by omega)]
  by_cases order : start % n < target
  · refine ⟨target - start % n, ⟨by omega, by omega, ?_⟩, ?_⟩
    · rw [reduce _ (by omega), if_pos (by omega)]
      omega
    · rintro m ⟨_, small, hits⟩
      rw [reduce m small] at hits
      split at hits <;> omega
  · refine ⟨target + n - start % n, ⟨by omega, by omega, ?_⟩, ?_⟩
    · rw [reduce _ (by omega), if_neg (by omega)]
      omega
    · rintro m ⟨_, small, hits⟩
      rw [reduce m small] at hits
      split at hits <;> omega

/-- The scheduler is round robin: the states and process numbers are as they
should be, each yield moves on by one, so that a task runs again after every
other created task has run exactly once, and the ticks count the switches modulo
`2 ^ 64`, each charged to the task that gave up the processor. -/
structure RoundRobin (session : Session) : Prop where
  running_iff : ∀ i, (session.sched.tasks i).state = .running ↔ i = session.sched.curTask
  ready_iff : ∀ i, (session.sched.tasks i).state = .ready ↔
    i.val < session.sched.taskCount ∧ i ≠ session.sched.curTask
  blocked_iff : ∀ i, (session.sched.tasks i).state = .blocked ↔ session.sched.taskCount ≤ i.val
  pid_eq : ∀ i, (session.sched.tasks i).pid = i
  chosen_created : ∀ next, (schedYield session.sched).1 = some next →
    next.val < session.sched.taskCount
  rotates : ∀ count, (Session.yield^[count] session).sched.curTask.val =
    (session.sched.curTask.val + count) % session.sched.taskCount
  returns : (Session.yield^[session.sched.taskCount] session).sched.curTask = session.sched.curTask
  fair : ∀ i : Fin 8, i.val < session.sched.taskCount → i ≠ session.sched.curTask →
    ∃! count, 0 < count ∧ count < session.sched.taskCount ∧
      (Session.yield^[count] session).sched.curTask = i
  away : ∀ count, 0 < count → count < session.sched.taskCount →
    (Session.yield^[count] session).sched.curTask ≠ session.sched.curTask
  ticks_eq : ∀ i, (session.sched.tasks i).ticks = session.givenUp i % 2 ^ 64
  givenUp_sum : ∑ i, session.givenUp i = session.switches
  ticks_sum : (∑ i, (session.sched.tasks i).ticks) % 2 ^ 64 = session.switches % 2 ^ 64
  ticks_exact : session.switches < 2 ^ 64 → ∑ i, (session.sched.tasks i).ticks = session.switches

theorem SessionInv.state_cases (inv : SessionInv session) (i : Fin 8) :
    (i = session.sched.curTask ∧ (session.sched.tasks i).state = .running) ∨
      (i.val < session.sched.taskCount ∧ i ≠ session.sched.curTask ∧
        (session.sched.tasks i).state = .ready) ∨
      (session.sched.taskCount ≤ i.val ∧ i ≠ session.sched.curTask ∧
        (session.sched.tasks i).state = .blocked) := by
  have bound := inv.sched.cur_lt
  by_cases isCur : i = session.sched.curTask
  · exact Or.inl ⟨isCur, isCur ▸ inv.sched.running⟩
  · by_cases inside : i.val < session.sched.taskCount
    · exact Or.inr (Or.inl ⟨inside, isCur, inv.sched.ready i inside isCur⟩)
    · have outside := Nat.not_lt.mp inside
      exact Or.inr (Or.inr ⟨outside, isCur, inv.sched.blocked i outside⟩)

theorem SessionInv.roundRobin (inv : SessionInv session) : RoundRobin session := by
  have small := inv.sched.count_le
  have bound := inv.sched.cur_lt
  have place := fun count => (inv.iterate count).2.2
  constructor
  case running_iff =>
    intro i
    rcases inv.state_cases i with ⟨isCur, state⟩ | ⟨_, notCur, state⟩ | ⟨_, notCur, state⟩
    · exact iff_of_true state isCur
    · exact iff_of_false (by rw [state]; decide) notCur
    · exact iff_of_false (by rw [state]; decide) notCur
  case ready_iff =>
    intro i
    rcases inv.state_cases i with
      ⟨isCur, state⟩ | ⟨inside, notCur, state⟩ | ⟨outside, notCur, state⟩
    · exact iff_of_false (by rw [state]; decide) fun holds => holds.2 isCur
    · exact iff_of_true state ⟨inside, notCur⟩
    · exact iff_of_false (by rw [state]; decide) fun holds =>
        absurd holds.1 (Nat.not_lt.mpr outside)
  case blocked_iff =>
    intro i
    rcases inv.state_cases i with
      ⟨isCur, state⟩ | ⟨inside, notCur, state⟩ | ⟨outside, notCur, state⟩
    · exact iff_of_false (by rw [state]; decide) (by rw [isCur]; exact Nat.not_le.mpr bound)
    · exact iff_of_false (by rw [state]; decide) (Nat.not_le.mpr inside)
    · exact iff_of_true state outside
  case pid_eq => exact inv.sched.pid
  case chosen_created =>
    intro next chosen
    by_cases single : session.sched.taskCount = 1
    · rw [inv.sched.schedYield_single single] at chosen
      cases chosen
    · rcases inv.sched.schedYield_several single with ⟨s', yields, _⟩
      rw [yields] at chosen
      rw [← Option.some.inj chosen, successor_val small bound]
      exact Nat.mod_lt _ (by omega)
  case rotates => exact place
  case returns =>
    refine Fin.ext ?_
    rw [place, Nat.add_mod_right, Nat.mod_eq_of_lt bound]
  case fair =>
    intro i inside notCur
    have different : i.val ≠ session.sched.curTask.val % session.sched.taskCount := by
      rw [Nat.mod_eq_of_lt bound]
      exact fun same => notCur (Fin.ext same)
    rcases existsUnique_mod inside different with ⟨count, ⟨positive, less, hits⟩, unique⟩
    refine ⟨count, ⟨positive, less, Fin.ext ((place count).trans hits)⟩, ?_⟩
    rintro other ⟨positive', less', hits'⟩
    refine unique other ⟨positive', less', ?_⟩
    rw [← place, hits']
  case away =>
    intro count positive less same
    have hits := (place count).symm.trans (congrArg Fin.val same)
    by_cases inside : session.sched.curTask.val + count < session.sched.taskCount
    · rw [Nat.mod_eq_of_lt inside] at hits
      omega
    · rw [Nat.mod_eq_sub_mod (by omega), Nat.mod_eq_of_lt (by omega)] at hits
      omega
  case ticks_eq => exact inv.ticks
  case givenUp_sum => exact inv.total
  case ticks_sum =>
    rw [← inv.total, Finset.sum_nat_mod, Finset.sum_nat_mod Finset.univ _ session.givenUp]
    refine congrArg (· % 2 ^ 64) (Finset.sum_congr rfl fun i _ => ?_)
    rw [inv.ticks]
    exact Nat.mod_mod _ _
  case ticks_exact =>
    intro few
    rw [← inv.total] at few ⊢
    refine Finset.sum_congr rfl fun i member => ?_
    rw [inv.ticks]
    exact wrap64_of_lt (Nat.lt_of_le_of_lt
      (Finset.single_le_sum (fun _ _ => Nat.zero_le _) member) few)

/-- In every session that can be reached from `sched_init` by creating tasks and yielding, the
scheduler is round robin: exactly one task runs, and each yield goes to the next one in the order
of the slots.  The ticks of a task count its yields modulo `2 ^ 64`. -/
theorem reachable_roundRobin (reachable : Session.Reachable image mem session) :
    RoundRobin session :=
  reachable.inv.roundRobin

end Sessions

/-! ## Two tasks -/

def twoTasks : Session :=
  (Session.init ⟨0x100000, 0x200000⟩ fun _ => 0).create ⟨0x100000, 0x200000⟩ (some [97]) 0x300000

theorem twoTasks_reachable :
    Session.Reachable ⟨0x100000, 0x200000⟩ (fun _ => 0) twoTasks :=
  Session.Reachable.init.create (some [97]) 0x300000

theorem iterate_reachable {image : Image} {mem : Mem} {session : Session}
    (reachable : Session.Reachable image mem session) (count : Nat) :
    Session.Reachable image mem (Session.yield^[count] session) := by
  induction count with
  | zero => exact reachable
  | succ count inductionHypothesis =>
      rw [Function.iterate_succ_apply']
      exact inductionHypothesis.yield

/-- The ticks are 64-bit counters: after `2 ^ 67` yields of two tasks their sum
is less than the number of yields. -/
theorem ticks_sum_ne_switches :
    ∃ session, Session.Reachable ⟨0x100000, 0x200000⟩ (fun _ => 0) session ∧
      ∑ i, (session.sched.tasks i).ticks ≠ session.switches := by
  have inv := twoTasks_reachable.inv
  have many := inv.iterate_switches (by decide) (2 ^ 67)
  have inv' := (inv.iterate (2 ^ 67)).1
  refine ⟨_, iterate_reachable twoTasks_reachable (2 ^ 67), fun same => ?_⟩
  have small : ∑ i, ((Session.yield^[2 ^ 67] twoTasks).sched.tasks i).ticks <
      ∑ _i : Fin 8, 2 ^ 64 :=
    Finset.sum_lt_sum_of_nonempty Finset.univ_nonempty fun i _ => by
      rw [inv'.ticks]
      exact wrap64_lt _
  rw [same, many, Finset.sum_const, Finset.card_univ, Fintype.card_fin,
    smul_eq_mul] at small
  omega

/-- With two tasks the second one runs after one yield. -/
theorem reachable_roundRobin_small :
    (Session.yield^[1] twoTasks).sched.curTask.val = (0 + 1) % 2 :=
  (reachable_roundRobin twoTasks_reachable).rotates 1

end Sched
end AuraKernel
