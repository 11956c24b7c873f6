import AuraKernel.Sched.Contexts

namespace AuraKernel
namespace Sched

open Machine

/-!
# Switching is transparent

In every execution each task that does not run is parked: its context is on its
own stack, which nobody else writes.  A yield parks the running task and takes
the next one up again where it left off, or at its entry.
-/

/-! ## Parked tasks -/

/-- The memory holds the context of task `i`. -/
def Parked (p : Program) (mem : Mem) (i : Fin 8) : Context → Prop
  | .fresh entry =>
      i ≠ bootTask ∧ entry < 2 ^ 64 ∧
        mem.word (BitVec.ofNat 64 (taskAddr p.image i)) =
          BitVec.ofNat 64 (kstack p.image i + kstackSize - 64) ∧
        Stacked mem (BitVec.ofNat 64 (kstack p.image i + kstackSize - 64))
          (initialWords p.trampoline (BitVec.ofNat 64 entry))
  | .suspended c =>
      p.CallsYield i c ∧ ∃ prev next, ∃ d, d = p.code.enter prev next c ∧
        mem.word (BitVec.ofNat 64 (taskAddr p.image i)) = d.rsp - 48 ∧
        Stacked mem (d.rsp - 48) (calleeSaved.reverse.map d.regs) ∧
        ∀ place, d.rsp.toNat ≤ place → place < p.stackHigh i → mem place = d.mem place

/-- A task continues: the call of `sched_yield` that it made in state `c` has returned
in state `d`. -/
structure Continues (p : Program) (i : Fin 8) (c d : Cpu) : Prop where
  rsp_eq : d.rsp = c.rsp + 8
  rip_eq : d.rip = c.mem.word c.rsp
  saved_eq : ∀ r ∈ calleeSaved, d.regs r = c.regs r
  stack_eq : ∀ place, c.rsp.toNat ≤ place → place < p.stackHigh i → d.mem place = c.mem place

/-- A task starts: control has come through `task_trampoline` to the first
instruction of its entry function. -/
structure Starts (p : Program) (i : Fin 8) (entry : Nat) (switched d : Cpu) : Prop where
  trampoline : switched.rip = p.trampoline
  rip_eq : d.rip = BitVec.ofNat 64 entry
  rsp_eq : d.rsp = BitVec.ofNat 64 (kstack p.image i + kstackSize - 8)
  aligned : d.rsp.toNat % 16 = 8
  saved_eq : ∀ r ∈ calleeSaved, d.regs r = 0
  return_eq : d.mem.word d.rsp = p.park

section Parking

variable {p : Program} {i j prev next : Fin 8} {mem mem' : Mem} {context : Context} {c f : Cpu}

/-- The stack of a task at the call of `switch_to`. -/
theorem Program.CallsYield.entered (calls : p.CallsYield i c)
    (abi : p.code.Abi p.trampoline p.vars) (prev next : BitVec 64) :
    (p.code.enter prev next c).rsp.toNat % 8 = 0 ∧
      p.stackLow i + 48 ≤ (p.code.enter prev next c).rsp.toNat ∧
      (p.code.enter prev next c).rsp.toNat ≤ c.rsp.toNat ∧
      (p.code.enter prev next c).rsp.toNat + 8 ≤ p.stackHigh i := by
  have entered := (abi.enter prev next c calls.called).1
  have low := calls.low
  have high := calls.high
  have enteredLow := entered.low
  have enteredHigh := entered.high
  exact ⟨entered.aligned, by omega, by omega, by omega⟩

/-- A parked task does not notice what happens elsewhere. -/
theorem Parked.congr (parked : Parked p mem i context) (placed : p.Placed)
    (abi : p.code.Abi p.trampoline p.vars)
    (same : ∀ place, p.Owns i place → mem' place = mem place) : Parked p mem' i context := by
  have pointer : mem'.word (BitVec.ofNat 64 (taskAddr p.image i)) =
      mem.word (BitVec.ofNat 64 (taskAddr p.image i)) := by
    refine Mem.word_congr fun place low high => same place (Or.inr ?_)
    rw [placed.taskAddr_toNat] at low high
    exact ⟨low, high⟩
  cases context with
  | fresh entry =>
      rcases parked with ⟨notBoot, entryLt, saved, stack⟩
      rcases placed.top_facts i with ⟨topLt, _, topLow⟩
      have top : (BitVec.ofNat 64 (kstack p.image i + kstackSize - 64)).toNat =
          kstack p.image i + kstackSize - 64 := Nat.mod_eq_of_lt (by omega)
      have eight : (initialWords p.trampoline (BitVec.ofNat 64 entry)).length = 8 := rfl
      refine ⟨notBoot, entryLt, pointer.trans saved, stack.congr ?_ fun place low high => ?_⟩
      · rw [top, eight]
        omega
      · rw [top, eight] at high
        rw [top] at low
        refine same place (Or.inl ?_)
        rw [stackLow_of_pos p notBoot, stackHigh_of_pos p notBoot]
        unfold kstackSize at *
        omega
  | suspended c =>
      rcases parked with ⟨calls, prev, next, d, rfl, saved, stack, above⟩
      rcases calls.entered abi prev next with ⟨_, low, _, high⟩
      have below : ((p.code.enter prev next c).rsp - 48).toNat =
          (p.code.enter prev next c).rsp.toNat - 48 := by bv_omega
      have six : (calleeSaved.reverse.map (p.code.enter prev next c).regs).length = 6 := rfl
      refine ⟨calls, prev, next, _, rfl, pointer.trans saved, ?_, fun place low' high' => ?_⟩
      · refine stack.congr ?_ fun place low' high' => same place (Or.inl ?_)
        · have bound := (p.code.enter prev next c).rsp.isLt
          rw [below, six]
          omega
        · rw [below] at low'
          rw [below, six] at high'
          omega
      · rw [same place (Or.inl ⟨by omega, high'⟩)]
        exact above place low' high'

/-! ## The switch -/

/-- The first half of a switch: the running task is parked, and the other tasks
do not notice. -/
theorem park_spec (placed : p.Placed) (abi : p.code.Abi p.trampoline p.vars)
    (calls : p.CallsYield i c) (next : BitVec 64) {d : Cpu}
    (entered : d = p.code.enter (BitVec.ofNat 64 (taskAddr p.image i)) next c) :
    Parked p (Cpu.run saveContext d).mem i (.suspended c) ∧
      (Cpu.run saveContext d).regs .rsi = next ∧
      ∀ j, j ≠ i → ∀ place, p.Owns j place → (Cpu.run saveContext d).mem place = c.mem place := by
  subst entered
  have enters := (abi.enter (BitVec.ofNat 64 (taskAddr p.image i)) next c calls.called).1
  have modifies := (abi.enter (BitVec.ofNat 64 (taskAddr p.image i)) next c calls.called).2
  rcases calls.entered abi (BitVec.ofNat 64 (taskAddr p.image i)) next with
    ⟨aligned, low, upper, high⟩
  have rdi : ((p.code.enter (BitVec.ofNat 64 (taskAddr p.image i)) next c).regs .rdi).toNat =
      taskAddr p.image i := by
    rw [enters.prev_eq, placed.taskAddr_toNat]
  have apart := placed.pointer_apart i
  have saved := saveContext_spec aligned (by omega) (by rw [rdi]; omega)
  refine ⟨⟨calls, _, next, _, rfl, ?_, saved.stack, fun place low' high' => ?_⟩, ?_, ?_⟩
  · have pointer := saved.pointer
    rw [enters.prev_eq] at pointer
    exact pointer
  · exact saved.mem_eq place (Or.inr low') (by rw [rdi]; omega)
  · rw [saved.regs_eq .rsi (by decide), enters.next_eq]
  · intro j different place owns
    have notOwn : ¬ p.Owns i place := fun own => different (placed.owns_apart owns own)
    have callsLow := calls.low
    have callsHigh := calls.high
    unfold Program.Owns at notOwn
    rw [saved.mem_eq place (by omega) (by rw [rdi]; omega)]
    exact modifies place (placed.vars_apart j place owns) (by omega)

/-- A task that was never run starts, and the other tasks do not notice. -/
theorem unpark_fresh (placed : p.Placed) {entry : Nat} (parked : Parked p f.mem next (.fresh entry))
    (rsi : f.regs .rsi = BitVec.ofNat 64 (taskAddr p.image next)) {g t : Cpu}
    (switched : g = (Cpu.run restoreContext f).ret)
    (resumed : t = if g.rip = p.trampoline then taskTrampoline p.park g else p.code.leave g) :
    (∀ j, j ≠ next → ∀ place, p.Owns j place → t.mem place = f.mem place) ∧
      Starts p next entry g t := by
  rcases parked with ⟨notBoot, entryLt, saved, stack⟩
  rw [← rsi] at saved
  rcases placed.top_facts next with ⟨topLt, topAligned, topLow⟩
  have words : initialWords p.trampoline (BitVec.ofNat 64 entry) =
      (calleeSaved.reverse.map (fun _ => 0) ++ [p.trampoline]) ++ [BitVec.ofNat 64 entry] := rfl
  rw [words] at stack
  rcases restoreContext_spec saved stack.left with ⟨memEq, rspEq, ripEq, savedEq⟩
  rw [← switched] at memEq rspEq ripEq savedEq
  rw [if_pos ripEq] at resumed
  have entryWord : g.mem.word g.rsp = BitVec.ofNat 64 entry := by
    have eight : (calleeSaved.reverse.map (fun _ => (0 : BitVec 64)) ++ [p.trampoline] ++
        [BitVec.ofNat 64 entry]).length = 8 := rfl
    have word := @Stacked.get f.mem _ _ stack 7 (by rw [eight]; decide)
    rw [memEq, rspEq]
    exact word
  have popped : (g.pop .rdi).rsp = BitVec.ofNat 64 (kstack p.image next + kstackSize) := by
    refine BitVec.eq_of_toNat_eq ?_
    have target : (BitVec.ofNat 64 (kstack p.image next + kstackSize)).toNat =
        kstack p.image next + kstackSize := Nat.mod_eq_of_lt topLt
    have start : (BitVec.ofNat 64 (kstack p.image next + kstackSize - 64)).toNat =
        kstack p.image next + kstackSize - 64 := Nat.mod_eq_of_lt (by omega)
    rw [g.pop_rsp _ (by decide), rspEq, target]
    bv_omega
  have rsp : t.rsp = BitVec.ofNat 64 (kstack p.image next + kstackSize - 8) := by
    rw [resumed]
    refine (Cpu.call_rsp _ _ _).trans ?_
    rw [popped]
    refine BitVec.eq_of_toNat_eq ?_
    have target : (BitVec.ofNat 64 (kstack p.image next + kstackSize)).toNat =
        kstack p.image next + kstackSize := Nat.mod_eq_of_lt topLt
    have lower : (BitVec.ofNat 64 (kstack p.image next + kstackSize - 8)).toNat =
        kstack p.image next + kstackSize - 8 := Nat.mod_eq_of_lt (by omega)
    rw [lower]
    bv_omega
  have rspNat : t.rsp.toNat = kstack p.image next + kstackSize - 8 := by
    rw [rsp]
    exact Nat.mod_eq_of_lt (by omega)
  have memT : t.mem = f.mem.setWord t.rsp p.park := by
    rw [rsp, ← memEq, resumed]
    refine (Cpu.call_mem _ _ _).trans ?_
    rw [← rsp, resumed]
    exact congrArg (g.mem.setWord · p.park) (Cpu.call_rsp _ _ _).symm
  refine ⟨fun j different place owns => ?_, ripEq, ?_, rsp, by omega, ?_, ?_⟩
  · have notOwn : ¬ p.Owns next place := fun own => different (placed.owns_apart owns own)
    unfold Program.Owns at notOwn
    rw [stackLow_of_pos p notBoot, stackHigh_of_pos p notBoot] at notOwn
    rw [memT]
    unfold Mem.setWord
    rw [rspNat]
    refine Mem.store64_apply_of_outside ?_
    unfold kstackSize at *
    omega
  · rw [resumed]
    refine (Cpu.call_rip _ _ _).trans ?_
    rw [g.pop_self, entryWord]
  · intro r member
    have notRsp : r ≠ .rsp := by
      rintro rfl
      exact absurd member (by decide)
    have notRdi : r ≠ .rdi := by
      rintro rfl
      exact absurd member (by decide)
    rw [resumed]
    refine (Cpu.call_regs _ _ _ notRsp).trans ?_
    rw [g.pop_regs _ notRdi notRsp]
    exact savedEq r member
  · rw [memT, Mem.word_setWord_same]

/-- A suspended task continues, and the other tasks do not notice. -/
theorem unpark_suspended (placed : p.Placed) (abi : p.code.Abi p.trampoline p.vars)
    (parked : Parked p f.mem next (.suspended c))
    (rsi : f.regs .rsi = BitVec.ofNat 64 (taskAddr p.image next)) {g t : Cpu}
    (switched : g = (Cpu.run restoreContext f).ret)
    (resumed : t = if g.rip = p.trampoline then taskTrampoline p.park g else p.code.leave g) :
    (∀ j, j ≠ next → ∀ place, p.Owns j place → t.mem place = f.mem place) ∧
      Continues p next c t := by
  rcases parked with ⟨calls, prev', next', d, entered, saved, stack, above⟩
  rw [← rsi] at saved
  have entersD := (abi.enter prev' next' c calls.called).1
  have modifiesD := (abi.enter prev' next' c calls.called).2
  have bounds := calls.entered abi prev' next'
  rw [← entered] at entersD modifiesD bounds
  rcases bounds with ⟨aligned, low, upper, high⟩
  have callsLow := calls.low
  have callsHigh := calls.high
  have returnWord : f.mem.word d.rsp = d.mem.word d.rsp :=
    Mem.word_congr fun place low' high' => above place low' (by omega)
  have whole : Stacked f.mem (d.rsp - 48)
      (calleeSaved.reverse.map d.regs ++ [d.mem.word d.rsp]) := by
    refine stack.append ⟨?_, trivial⟩
    have back : d.rsp - 48 + BitVec.ofNat 64 (8 * (calleeSaved.reverse.map d.regs).length) =
        d.rsp := BitVec.sub_add_cancel _ _
    rw [back]
    exact returnWord
  rcases restoreContext_spec saved whole with ⟨memEq, rspEq, ripEq, savedEq⟩
  rw [← switched] at memEq rspEq ripEq savedEq
  have notTrampoline : g.rip ≠ p.trampoline := by
    rw [ripEq]
    exact entersD.returnAddr
  rw [if_neg notTrampoline] at resumed
  have resumedG : Resumed d g (c.rsp.toNat + 8) := by
    refine ⟨?_, ripEq, savedEq, fun place low' high' => ?_⟩
    · rw [rspEq]
      bv_omega
    · rw [memEq]
      exact above place low' (by omega)
  have left := abi.leave prev' next' c g calls.called (entered ▸ resumedG)
  rw [← resumed] at left
  rcases left with ⟨returns, modifies⟩
  -- the bytes from the return address up to the end of the stack
  have kept : ∀ place, c.rsp.toNat ≤ place → place < p.stackHigh next →
      g.mem place = c.mem place := by
    intro place low' high'
    have owns : p.Owns next place := Or.inl ⟨by omega, high'⟩
    rw [memEq, above place (by omega) high']
    exact modifiesD place (placed.vars_apart next place owns) (Or.inr low')
  refine ⟨fun j different place owns => ?_, returns.rsp_eq, ?_, returns.saved_eq, ?_⟩
  · have notOwn : ¬ p.Owns next place := fun own => different (placed.owns_apart owns own)
    unfold Program.Owns at notOwn
    rw [← memEq]
    exact modifies place (placed.vars_apart j place owns) (by omega)
  · rw [returns.rip_eq]
    exact Mem.word_congr fun place low' high' => kept place low' (by omega)
  · intro place low' high'
    have owns : p.Owns next place := Or.inl ⟨by omega, high'⟩
    rw [modifies place (placed.vars_apart next place owns) (Or.inr low')]
    exact kept place low' high'

/-- The second half of a switch: the next task starts or continues, and the other
tasks do not notice. -/
theorem unpark_spec (placed : p.Placed) (abi : p.code.Abi p.trampoline p.vars)
    (parked : Parked p f.mem next context)
    (rsi : f.regs .rsi = BitVec.ofNat 64 (taskAddr p.image next)) {g t : Cpu}
    (switched : g = (Cpu.run restoreContext f).ret)
    (resumed : t = if g.rip = p.trampoline then taskTrampoline p.park g else p.code.leave g) :
    (∀ j, j ≠ next → ∀ place, p.Owns j place → t.mem place = f.mem place) ∧
      match context with
      | .fresh entry => Starts p next entry g t
      | .suspended c => Continues p next c t := by
  cases context with
  | fresh entry => exact unpark_fresh placed parked rsi switched resumed
  | suspended c => exact unpark_suspended placed abi parked rsi switched resumed

end Parking

/-! ## Executions -/

/-- Every task that was created and does not run is parked. -/
structure ExecutionInv (p : Program) (e : Execution) : Prop where
  sched : SchedInv e.sched
  parked : ∀ i : Fin 8, i.val < e.sched.taskCount → i ≠ e.sched.curTask →
    ∃ context, e.contexts i = some context ∧ Parked p e.sched.mem i context

/-- What a call of `sched_yield` leads to: it returns in the same task, or the next
task starts or continues. -/
def Execution.Resumes (p : Program) (e : Execution) : Prop :=
  match (schedYield e.sched).1 with
  | none => Continues p e.sched.curTask e.cpu (e.yield p).cpu
  | some next =>
      (e.yield p).sched.curTask = next ∧
        match e.contexts next with
        | some (.fresh entry) =>
            Starts p next entry
              (switchTo (p.code.enter (BitVec.ofNat 64 (taskAddr p.image e.sched.curTask))
                (BitVec.ofNat 64 (taskAddr p.image next)) e.cpu)) (e.yield p).cpu
        | some (.suspended c) => Continues p next c (e.yield p).cpu
        | none => False

section Executions

variable {p : Program} {e e' : Execution}

/-- The scheduler does not look at the memory. -/
theorem SchedInv.withMem {s : SchedState} (inv : SchedInv s) (mem : Mem) :
    SchedInv { s with mem := mem } where
  count_le := inv.count_le
  cur_lt := inv.cur_lt
  running := inv.running
  ready := inv.ready
  blocked := inv.blocked
  pid := inv.pid

/-- A yield without another task returns at once. -/
theorem ExecutionInv.yield_single (inv : ExecutionInv p e) (placed : p.Placed)
    (abi : p.code.Abi p.trampoline p.vars) (calls : p.CallsYield e.sched.curTask e.cpu)
    (single : e.sched.taskCount = 1) : e.Resumes p ∧ ExecutionInv p (e.yield p) := by
  have alone := inv.sched.schedYield_single single
  have returned := (abi.idle e.cpu calls.called).1
  have modifies := (abi.idle e.cpu calls.called).2
  have low := calls.low
  have yielded : e.yield p =
      { e with
        sched := { e.sched with mem := (p.code.idle e.cpu).mem }
        regs := (p.code.idle e.cpu).regs
        rip := (p.code.idle e.cpu).rip } := by
    unfold Execution.yield
    rw [alone]
  unfold Execution.Resumes
  rw [alone, yielded]
  refine ⟨⟨returned.rsp_eq, returned.rip_eq, returned.saved_eq, fun place low' high' => ?_⟩,
    inv.sched.withMem _, fun i bound different => ?_⟩
  · have owns : p.Owns e.sched.curTask place := Or.inl ⟨by omega, high'⟩
    exact modifies place (placed.vars_apart _ place owns) (Or.inr low')
  · have cur := inv.sched.cur_lt
    dsimp only at bound different
    exact absurd (Fin.ext (by omega)) different

/-- A yield with other tasks switches to the next one. -/
theorem ExecutionInv.yield_several (inv : ExecutionInv p e) (placed : p.Placed)
    (abi : p.code.Abi p.trampoline p.vars) (calls : p.CallsYield e.sched.curTask e.cpu)
    (several : e.sched.taskCount ≠ 1) : e.Resumes p ∧ ExecutionInv p (e.yield p) := by
  rcases inv.sched.schedYield_several several with ⟨sched, yields, cur, count, _, different, _⟩
  have sched' := inv.sched.yield.1
  have nextLt : (successor e.sched.curTask e.sched.taskCount).val < e.sched.taskCount := by
    have bound := inv.sched.cur_lt
    rw [successor_val inv.sched.count_le bound]
    exact Nat.mod_lt _ (by omega)
  generalize successor e.sched.curTask e.sched.taskCount = next at *
  rw [yields] at sched'
  rcases inv.parked next nextLt different with ⟨context, contextEq, parked⟩
  rcases park_spec placed abi calls (BitVec.ofNat 64 (taskAddr p.image next)) rfl with
    ⟨parkedCur, rsi, others⟩
  have parkedNext := parked.congr placed abi (others next different)
  rcases unpark_spec placed abi parkedNext rsi rfl rfl with ⟨others', resumes⟩
  have yielded : e.yield p =
      { sched := { sched with mem := (p.switchTasks e.sched.curTask next e.cpu).mem }
        regs := (p.switchTasks e.sched.curTask next e.cpu).regs
        rip := (p.switchTasks e.sched.curTask next e.cpu).rip
        contexts := Function.update
          (Function.update e.contexts e.sched.curTask (some (.suspended e.cpu))) next none } := by
    unfold Execution.yield
    rw [yields]
  constructor
  · unfold Execution.Resumes
    rw [yields, yielded]
    dsimp only
    rw [contextEq]
    refine ⟨cur, ?_⟩
    cases context with
    | fresh entry => exact resumes
    | suspended c => exact resumes
  · rw [yielded]
    refine ⟨sched'.withMem _, fun i bound notCur => ?_⟩
    dsimp only at bound notCur ⊢
    rw [cur] at notCur
    rw [count] at bound
    rw [Function.update_of_ne notCur]
    by_cases wasCur : i = e.sched.curTask
    · subst wasCur
      rw [Function.update_self]
      exact ⟨_, rfl, parkedCur.congr placed abi (others' _ different.symm)⟩
    · rw [Function.update_of_ne wasCur]
      rcases inv.parked i bound wasCur with ⟨context', contextEq', parked'⟩
      refine ⟨context', contextEq', parked'.congr placed abi fun place owns => ?_⟩
      exact (others' i notCur place owns).trans (others i wasCur place owns)

theorem ExecutionInv.yield (inv : ExecutionInv p e) (placed : p.Placed)
    (abi : p.code.Abi p.trampoline p.vars) (calls : p.CallsYield e.sched.curTask e.cpu) :
    e.Resumes p ∧ ExecutionInv p (e.yield p) := by
  by_cases single : e.sched.taskCount = 1
  · exact inv.yield_single placed abi calls single
  · exact inv.yield_several placed abi calls single

theorem schedCreateTask_mem (image : Image) (name : Option (List UInt8)) (entry : Nat)
    (s : SchedState) :
    schedCreateTask image name entry s = (-1, s) ∨
      ∃ room : s.taskCount < 8, ∃ s',
        schedCreateTask image name entry s = ((s.taskCount : Int), s') ∧
        s'.curTask = s.curTask ∧ s'.taskCount = s.taskCount + 1 ∧
        s'.mem = (buildStack image.taskTrampoline entry
            (kstack image ⟨s.taskCount, room⟩ + kstackSize) s.mem).2.store64
          (taskAddr image ⟨s.taskCount, room⟩)
          (buildStack image.taskTrampoline entry
            (kstack image ⟨s.taskCount, room⟩ + kstackSize) s.mem).1 := by
  unfold schedCreateTask
  cases name with
  | none => exact Or.inl rfl
  | some name =>
      dsimp only
      by_cases null : entry = 0
      · exact Or.inl (if_pos null)
      rw [if_neg null]
      by_cases room : s.taskCount < 8
      · rw [dif_pos room]
        exact Or.inr ⟨room, _, rfl, rfl, rfl, rfl⟩
      · exact Or.inl (dif_neg room)

/-- A new task is parked, and the others do not notice. -/
theorem create_parked (placed : p.Placed) {i : Fin 8} (notBoot : i ≠ 0) {entry : Nat}
    (entryLt : entry < 2 ^ 64) {mem mem' : Mem}
    (built : mem' =
      (buildStack p.image.taskTrampoline entry (kstack p.image i + kstackSize) mem).2.store64
      (taskAddr p.image i)
      (buildStack p.image.taskTrampoline entry (kstack p.image i + kstackSize) mem).1) :
    Parked p mem' i (.fresh entry) ∧
      ∀ j, j ≠ i → ∀ place, p.Owns j place → mem' place = mem place := by
  rcases placed.top_facts i with ⟨topLt, topAligned, topLow⟩
  have inside := placed.taskAddr_lt i
  rcases buildStack_spec mem topAligned topLow topLt placed.trampoline_lt entryLt with
    ⟨sp, stack, outside⟩
  rw [sp] at built
  have apart : taskAddr p.image i + 8 ≤ kstack p.image i + kstackSize - 64 := by
    unfold kstack kstackSize
    omega
  have start : (BitVec.ofNat 64 (kstack p.image i + kstackSize - 64)).toNat =
      kstack p.image i + kstackSize - 64 := Nat.mod_eq_of_lt (by omega)
  refine ⟨⟨notBoot, entryLt, ?_, ?_⟩, fun j different place owns => ?_⟩
  · rw [built, ← setWord_ofNat (by omega) (by omega), Mem.word_setWord_same]
  · have eight : (initialWords (BitVec.ofNat 64 p.image.taskTrampoline)
        (BitVec.ofNat 64 entry)).length = 8 := rfl
    refine stack.congr ?_ fun place low high => ?_
    · rw [start, eight]
      omega
    · rw [start] at low
      rw [built]
      exact Mem.store64_apply_of_outside (by omega)
  · have notOwn : ¬ p.Owns i place := fun own => different (placed.owns_apart owns own)
    unfold Program.Owns at notOwn
    rw [stackLow_of_pos p notBoot, stackHigh_of_pos p notBoot] at notOwn
    rw [built, Mem.store64_apply_of_outside (by omega)]
    refine outside place ?_
    unfold kstackSize at *
    omega

theorem ExecutionInv.create (inv : ExecutionInv p e) (placed : p.Placed)
    (abi : p.code.Abi p.trampoline p.vars) (name : Option (List UInt8)) {entry : Nat}
    (entryLt : entry < 2 ^ 64) : ExecutionInv p (e.create p name entry) := by
  have sched := inv.sched.create p.image name entry
  rcases schedCreateTask_mem p.image name entry e.sched with
    failed | ⟨room, s', created, cur, count, built⟩
  · have unchanged : e.create p name entry = e := by
      have notIndex : ∀ i : Fin 8, (-1 : Int) ≠ (i : Int) := fun i => by omega
      unfold Execution.create
      simp only [failed, notIndex, if_false]
    rw [unchanged]
    exact inv
  · have bound := inv.sched.cur_lt
    have notBoot : (⟨e.sched.taskCount, room⟩ : Fin 8) ≠ 0 := fun same => by
      have zero : e.sched.taskCount = 0 := congrArg Fin.val same
      omega
    rcases create_parked placed notBoot entryLt built with ⟨parkedNew, others⟩
    have shape : e.create p name entry =
        { e with
          sched := s'
          contexts := fun i =>
            if (e.sched.taskCount : Int) = (i : Int) then some (.fresh entry)
            else e.contexts i } := by
      unfold Execution.create
      rw [created]
    rw [shape]
    rw [created] at sched
    refine ⟨sched, fun i inside notCur => ?_⟩
    dsimp only at inside notCur ⊢
    rw [cur] at notCur
    rw [count] at inside
    by_cases isNew : i = ⟨e.sched.taskCount, room⟩
    · subst isNew
      rw [if_pos rfl]
      exact ⟨_, rfl, parkedNew⟩
    · have notLast : i.val ≠ e.sched.taskCount := fun same => isNew (Fin.ext same)
      rw [if_neg (by omega)]
      rcases inv.parked i (by omega) notCur with ⟨context, contextEq, parked⟩
      exact ⟨context, contextEq, parked.congr placed abi (others i isNew)⟩

theorem ExecutionInv.step (inv : ExecutionInv p e) (placed : p.Placed)
    (abi : p.code.Abi p.trampoline p.vars) (step : e.Step p e') : ExecutionInv p e' := by
  cases step with
  | work regs rip mem spared =>
      refine ⟨inv.sched.withMem mem, fun i inside notCur => ?_⟩
      rcases inv.parked i inside notCur with ⟨context, contextEq, parked⟩
      exact ⟨context, contextEq, parked.congr placed abi (spared i notCur inside)⟩
  | create name entry bound => exact inv.create placed abi name bound
  | yield calls => exact (inv.yield placed abi calls).2

theorem Execution.Reachable.inv (reachable : Execution.Reachable p e) (placed : p.Placed)
    (abi : p.code.Abi p.trampoline p.vars) : ExecutionInv p e := by
  induction reachable with
  | init mem regs rip =>
      refine ⟨schedInit_inv p.image mem, fun i inside notCur => ?_⟩
      have boot : i = 0 := Fin.ext (Nat.lt_one_iff.mp inside)
      exact absurd boot notCur
  | step _ step inductionHypothesis => exact inductionHypothesis.step placed abi step

/-- In every execution a call of `sched_yield` returns in a task with its stack pointer,
its callee-saved registers, its return address and its stack as they were when
this task called, and a task that is switched to for the first time comes through
the trampoline to its entry. -/
theorem reachable_resumes (placed : p.Placed) (abi : p.code.Abi p.trampoline p.vars)
    (reachable : Execution.Reachable p e) (calls : p.CallsYield e.sched.curTask e.cpu) :
    e.Resumes p :=
  ((reachable.inv placed abi).yield placed abi calls).1

end Executions

/-! ## A small execution -/

/-- A `sched_yield` that ends in a jump to `switch_to`. -/
def tailCall : YieldCode where
  frame := 0
  enter := fun prev next c => (c.setReg .rdi prev).setReg .rsi next
  leave := id
  idle := Cpu.ret

theorem tailCall_abi (trampoline : BitVec 64) (vars : Set Nat) :
    tailCall.Abi trampoline vars where
  enter := fun prev next c called => by
    have aligned := called.aligned
    have rsp : (tailCall.enter prev next c).rsp = c.rsp := rfl
    refine ⟨⟨rfl, rfl, ?_, ?_, ?_, called.returnAddr⟩, fun _ _ _ => rfl⟩
    · rw [rsp]
      omega
    · rw [rsp]
      exact Nat.sub_le _ _
    · rw [rsp]
  leave := fun prev next c e called resumed => by
    have rsp : (tailCall.enter prev next c).rsp = c.rsp := rfl
    refine ⟨⟨resumed.rsp_eq, ?_, fun r member => ?_⟩, fun _ _ _ => rfl⟩
    · refine resumed.rip_eq.trans (Mem.word_congr fun place low high => ?_).symm
      exact resumed.stack_eq place low high
    · refine (resumed.saved_eq r member).trans ?_
      have notRsi : r ≠ .rsi := by
        rintro rfl
        exact absurd member (by decide)
      have notRdi : r ≠ .rdi := by
        rintro rfl
        exact absurd member (by decide)
      exact (Cpu.setReg_of_ne _ _ _ notRsi).trans (Cpu.setReg_of_ne _ _ _ notRdi)
  idle := fun c _ => by
    refine ⟨⟨c.ret_rsp, rfl, fun r member => c.ret_regs ?_⟩, fun _ _ _ => rfl⟩
    rintro rfl
    exact absurd member (by decide)

/-- A kernel with its boot stack below the table of tasks. -/
def smallProgram : Program where
  image := { tasks := 0x10000, taskTrampoline := 0x100 }
  park := 0x108
  bootLow := 0x8000
  bootHigh := 0x9000
  vars := ∅
  code := tailCall

theorem smallProgram_placed : smallProgram.Placed where
  aligned := by decide
  inside := by decide
  trampoline_lt := by decide
  boot_apart := by decide
  vars_apart := fun _ _ _ => Set.notMem_empty _

/-- The boot task with one other task, about to call `sched_yield`. -/
def smallExecution : Execution :=
  { sched := schedInit smallProgram.image fun _ => 0
    regs := fun r => if r = .rsp then 0x8f08 else 0
    rip := 0
    contexts := fun _ => none : Execution }.create smallProgram (some [65]) 0x500

/-- The first yield goes to the second task. -/
theorem reachable_resumes_small :
    (schedYield smallExecution.sched).1 = some 1 ∧ smallExecution.Resumes smallProgram := by
  refine ⟨by decide +kernel, ?_⟩
  refine reachable_resumes smallProgram_placed (tailCall_abi _ _)
    (.step (.init _ _ _) (.create (some [65]) 0x500 (by decide))) ⟨⟨?_, ?_, ?_⟩, ?_, ?_⟩
  all_goals decide +kernel

end Sched
end AuraKernel
