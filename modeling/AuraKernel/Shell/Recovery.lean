import AuraKernel.Shell.Menu
import Mathlib.Logic.Relation
import Mathlib.Data.List.Basic

namespace AuraKernel
namespace Shell

open Drivers

/-!
# The prompt after a command

`menu_handle_key` empties the line behind the call of `execute_command`.  A
command that returns is followed by an empty prompt; a command that faults is
still in the line when the shell goes on after a recovery, and the next keys are
added to it.
-/

def line (s : Menu) : List UInt8 := (List.range s.cmdLen).map s.cmdBuf

/-- What a key that executes nothing does to the view and the line. -/
def editKey (prompt : View × List UInt8) (c : UInt8) : View × List UInt8 :=
  match prompt.1 with
  | .dashboard => if c = 113 ∨ c = 81 ∨ c = escape then (.menu, prompt.2) else prompt
  | .menu =>
      if c = backspace then (.menu, prompt.2.dropLast)
      else if (32 ≤ c ∧ c ≤ 126) ∧ prompt.2.length < cmdMax - 1 then (.menu, prompt.2 ++ [c])
      else prompt

/-- Keys that are typed without executing a line. -/
inductive Typed : Menu → List UInt8 → Menu → Prop
  | nil (s : Menu) : Typed s [] s
  | key {s s' next : Menu} {keys : List UInt8} (stats : Stats) (c : UInt8)
      (edits : s.activeView = .dashboard ∨ ¬ IsEnter c)
      (returned : menuHandleKey stats c s = .returned s') (rest : Typed s' keys next) :
      Typed s (c :: keys) next

/-- The polling loop gets control back, at once or after keys on the panic screen. -/
inductive System.Returns : System → System → Prop
  | here {sys : System} (polling : sys.mode = .polling) : Returns sys sys
  | key {sys after : System} (c : UInt8) (panicking : sys.mode = .panicking)
      (rest : Returns (sys.panicKey c) after) : Returns sys after

/-- Whenever the polling loop is back after Enter, the line buffer is empty, and the next
command consists of keys typed from then on. -/
def CleanPrompt (stats : Stats) (sys : System) : Prop :=
  ∀ c, IsEnter c → ∀ after, System.Returns (sys.polledKey stats c) after →
    after.menu.cmdLen = 0 ∧ after.menu.cmdBuf 0 = 0 ∧
      ∀ keys next, Typed after.menu keys next → next.activeView = .menu →
        commandOf next = (keys.foldl editKey (after.menu.activeView, [])).2

/-- The systems that keys can lead to. -/
def System.Reachable (start : System) : System → Prop :=
  Relation.ReflTransGen (fun sys next => ∃ stats c, next = sys.key stats c) start

/-! ## The log is kept apart -/

section Log

variable (msg : List UInt8) (s : Menu)

@[simp] theorem logPrint_cmdBuf : (logPrint msg s).cmdBuf = s.cmdBuf := by
  unfold logPrint
  split
  all_goals rfl

@[simp] theorem logPrint_cmdLen : (logPrint msg s).cmdLen = s.cmdLen := by
  unfold logPrint
  split
  all_goals rfl

end Log

/-! ## The line -/

theorem cString_eq {size length : Nat} {array : Nat → UInt8} (inside : length < size)
    (chars : ∀ i, i < length → array i ≠ 0) (closed : array length = 0) :
    cString size array = (List.range length).map array := by
  obtain ⟨rest, rfl⟩ : ∃ rest, size = length + (1 + rest) :=
    ⟨size - length - 1, by omega⟩
  unfold cString
  rw [List.range_add, List.map_append, List.takeWhile_append_of_pos, List.range_add]
  · simp [closed]
  · intro c member
    rcases List.mem_map.mp member with ⟨i, inRange, rfl⟩
    exact decide_eq_true (chars i (List.mem_range.mp inRange))

/-- The line fits in its buffer and contains no NUL. -/
structure MenuInv (s : Menu) : Prop where
  length : s.cmdLen < cmdMax
  chars : ∀ i, i < s.cmdLen → s.cmdBuf i ≠ 0

namespace MenuInv

variable {s s' : Menu}

theorem congr (inv : MenuInv s) (buf : s'.cmdBuf = s.cmdBuf) (len : s'.cmdLen = s.cmdLen) :
    MenuInv s' where
  length := len ▸ inv.length
  chars := by
    rw [buf, len]
    exact inv.chars

theorem commandOf_eq (inv : MenuInv s) : commandOf s = line s := by
  have same : ∀ i, i < s.cmdLen → Function.update s.cmdBuf s.cmdLen 0 i = s.cmdBuf i :=
    fun i less => Function.update_of_ne (Nat.ne_of_lt less) _ _
  unfold commandOf line
  rw [cString_eq inv.length]
  · exact List.map_congr_left fun i member => same i (List.mem_range.mp member)
  · intro i less
    rw [same i less]
    exact inv.chars i less
  · exact Function.update_self _ _ _

theorem empty (len : s.cmdLen = 0) : MenuInv s where
  length := by
    rw [len]
    decide
  chars := by
    rw [len]
    exact fun i less => absurd less (Nat.not_lt_zero i)

theorem erase (inv : MenuInv s) (more : s.cmdLen > 0) :
    MenuInv { s with
        cmdLen := s.cmdLen - 1
        cmdBuf := Function.update s.cmdBuf (s.cmdLen - 1) 0 } ∧
      line { s with
        cmdLen := s.cmdLen - 1
        cmdBuf := Function.update s.cmdBuf (s.cmdLen - 1) 0 } = (line s).dropLast := by
  have same : ∀ i, i < s.cmdLen - 1 →
      Function.update s.cmdBuf (s.cmdLen - 1) 0 i = s.cmdBuf i :=
    fun i less => Function.update_of_ne (Nat.ne_of_lt less) _ _
  have length := inv.length
  refine ⟨⟨show s.cmdLen - 1 < cmdMax by omega, fun i less => ?_⟩, ?_⟩
  · dsimp only at less ⊢
    rw [same i less]
    exact inv.chars i (by omega)
  · unfold line
    dsimp only
    rw [show s.cmdLen = s.cmdLen - 1 + 1 by omega, List.range_succ, List.map_append,
      List.map_singleton, List.dropLast_concat, Nat.add_sub_cancel]
    exact List.map_congr_left fun i member => same i (List.mem_range.mp member)

theorem append (inv : MenuInv s) {c : UInt8} (char : c ≠ 0) (room : s.cmdLen < cmdMax - 1) :
    MenuInv { s with
        cmdBuf := Function.update (Function.update s.cmdBuf s.cmdLen c) (s.cmdLen + 1) 0
        cmdLen := s.cmdLen + 1 } ∧
      line { s with
        cmdBuf := Function.update (Function.update s.cmdBuf s.cmdLen c) (s.cmdLen + 1) 0
        cmdLen := s.cmdLen + 1 } = line s ++ [c] := by
  have here : Function.update (Function.update s.cmdBuf s.cmdLen c) (s.cmdLen + 1) 0 s.cmdLen =
      c := by
    rw [Function.update_of_ne (Nat.ne_of_lt (Nat.lt_succ_self _)), Function.update_self]
  have same : ∀ i, i < s.cmdLen →
      Function.update (Function.update s.cmdBuf s.cmdLen c) (s.cmdLen + 1) 0 i = s.cmdBuf i := by
    intro i less
    rw [Function.update_of_ne (by omega), Function.update_of_ne (Nat.ne_of_lt less)]
  refine ⟨⟨show s.cmdLen + 1 < cmdMax by omega, fun i less => ?_⟩, ?_⟩
  · dsimp only at less ⊢
    rcases Nat.lt_succ_iff_lt_or_eq.mp less with earlier | last
    · rw [same i earlier]
      exact inv.chars i earlier
    · rw [last, here]
      exact char
  · unfold line
    dsimp only
    rw [List.range_succ, List.map_append, List.map_singleton, here]
    exact congrArg (· ++ [c])
      (List.map_congr_left fun i member => same i (List.mem_range.mp member))

end MenuInv

theorem line_length (s : Menu) : (line s).length = s.cmdLen := by
  unfold line
  rw [List.length_map, List.length_range]

theorem line_congr {s s' : Menu} (buf : s'.cmdBuf = s.cmdBuf) (len : s'.cmdLen = s.cmdLen) :
    line s' = line s := by
  unfold line
  rw [buf, len]

/-- A key that executes nothing edits the line. -/
theorem MenuInv.edit {s : Menu} (inv : MenuInv s) (stats : Stats) (c : UInt8)
    (edits : s.activeView = .dashboard ∨ ¬ IsEnter c) :
    ∃ s', menuHandleKey stats c s = .returned s' ∧ MenuInv s' ∧
      (s'.activeView, line s') = editKey (s.activeView, line s) c := by
  unfold menuHandleKey editKey
  cases view : s.activeView with
  | dashboard =>
      dsimp only
      by_cases leaves : c = 113 ∨ c = 81 ∨ c = escape
      · rw [if_pos leaves, if_pos leaves]
        exact ⟨_, rfl, inv.congr rfl rfl, rfl⟩
      · rw [if_neg leaves, if_neg leaves]
        exact ⟨s, rfl, inv, congrArg (·, line s) view⟩
  | menu =>
      have notEnter : ¬ IsEnter c := by
        rcases edits with isDashboard | notEnter
        · rw [view] at isDashboard
          exact absurd isDashboard (by decide)
        · exact notEnter
      dsimp only
      rw [if_neg notEnter, line_length]
      by_cases erases : c = backspace
      · rw [if_pos erases, if_pos erases]
        by_cases more : s.cmdLen > 0
        · rw [if_pos more]
          rcases inv.erase more with ⟨inv', shorter⟩
          exact ⟨_, rfl, inv'.congr rfl rfl, congrArg (View.menu, ·) shorter⟩
        · rw [if_neg more]
          have nothing : line s = [] := by
            apply List.eq_nil_of_length_eq_zero
            rw [line_length]
            omega
          refine ⟨s, rfl, inv, ?_⟩
          rw [nothing, view]
          rfl
      · rw [if_neg erases, if_neg erases]
        by_cases printable : 32 ≤ c ∧ c ≤ 126
        · rw [if_pos printable]
          by_cases room : s.cmdLen < cmdMax - 1
          · rw [if_pos room, if_pos ⟨printable, room⟩]
            have char : c ≠ 0 := by
              rintro rfl
              exact absurd printable.1 (by decide)
            rcases inv.append char room with ⟨inv', longer⟩
            exact ⟨_, rfl, inv'.congr rfl rfl, congrArg (View.menu, ·) longer⟩
          · rw [if_neg room, if_neg fun both => room both.2]
            exact ⟨s, rfl, inv, congrArg (·, line s) view⟩
        · rw [if_neg printable, if_neg fun both => printable both.1]
          exact ⟨s, rfl, inv, congrArg (·, line s) view⟩

/-- Typing edits the line key by key. -/
theorem Typed.edits {s next : Menu} {keys : List UInt8} (typed : Typed s keys next)
    (inv : MenuInv s) :
    MenuInv next ∧ (next.activeView, line next) =
      keys.foldl editKey (s.activeView, line s) := by
  induction typed with
  | nil s => exact ⟨inv, rfl⟩
  | key stats c edits returned _ inductionHypothesis =>
      rcases inv.edit stats c edits with ⟨s', returned', inv', edited⟩
      cases Outcome.returned.inj (returned.symm.trans returned')
      rw [List.foldl_cons, ← edited]
      exact inductionHypothesis inv'

/-! ## Commands -/

theorem strEq_iff (a b : List UInt8) : strEq a b = true ↔ a = b := by
  induction a generalizing b with
  | nil =>
      cases b with
      | nil => exact iff_of_true rfl rfl
      | cons y b => exact iff_of_false Bool.false_ne_true (by simp)
  | cons x a inductionHypothesis =>
      cases b with
      | nil => exact iff_of_false Bool.false_ne_true (by simp)
      | cons y b =>
          rw [strEq]
          by_cases same : x = y
          · rw [if_neg (not_not.mpr same), inductionHypothesis, same, List.cons_inj_right]
          · rw [if_pos same]
            exact iff_of_false Bool.false_ne_true fun equal => same (List.cons_eq_cons.mp equal).1

def Faults (cmd : List UInt8) : Prop := cmd = ascii "panic" ∨ cmd = ascii "pf"

structure SameLine (s s' : Menu) : Prop where
  buf : s'.cmdBuf = s.cmdBuf
  len : s'.cmdLen = s.cmdLen

theorem SameLine.refl (s : Menu) : SameLine s s := ⟨rfl, rfl⟩

theorem SameLine.log {s s' : Menu} (same : SameLine s s') (msg : List UInt8) :
    SameLine s (logPrint msg s') where
  buf := (logPrint_cmdBuf msg s').trans same.buf
  len := (logPrint_cmdLen msg s').trans same.len

/-- What a command does with the line: only the two that fault do not return or halt, and
no command touches the line. -/
inductive Executed (s : Menu) (cmd : List UInt8) : Outcome → Prop
  | returned {s' : Menu} (same : SameLine s s') (benign : ¬ Faults cmd) :
      Executed s cmd (.returned s')
  | faulted {s' : Menu} (same : SameLine s s') (faults : Faults cmd) : Executed s cmd (.faulted s')
  | halted {s' : Menu} (same : SameLine s s') (benign : ¬ Faults cmd) : Executed s cmd (.halted s')

instance (cmd : List UInt8) : Decidable (Faults cmd) := inferInstanceAs (Decidable (_ ∨ _))

theorem executeCommand_executed (stats : Stats) (cmd : List UInt8) (s : Menu) :
    Executed s cmd (executeCommand stats cmd s) := by
  have start := SameLine.refl s
  have benign : ∀ {name : String}, strEq cmd (ascii name) = true → ¬ Faults (ascii name) →
      ¬ Faults cmd := by
    intro name named other
    rw [(strEq_iff _ _).mp named]
    exact other
  unfold executeCommand
  -- one case for each command, in the order of the source
  refine iteInduction (fun empty => ?_) fun _ => ?_
  · exact Executed.returned start (by rw [empty]; decide)
  refine iteInduction (fun help => Executed.returned ?_ (benign help (by decide))) fun _ => ?_
  · repeat apply SameLine.log
    exact start
  refine iteInduction (fun info => Executed.returned ?_ (benign info (by decide))) fun _ => ?_
  · exact (start.log _).log _
  refine iteInduction (fun mem => Executed.returned ?_ (benign mem (by decide))) fun _ => ?_
  · exact ((start.log _).log _).log _
  refine iteInduction (fun clear => Executed.returned ?_ (benign clear (by decide))) fun _ => ?_
  · exact ⟨rfl, rfl⟩
  refine iteInduction (fun dashboard => Executed.returned ?_ (benign dashboard (by decide)))
    fun _ => ?_
  · exact ⟨rfl, rfl⟩
  refine iteInduction (fun halt => Executed.halted ?_ (benign halt (by decide))) fun _ => ?_
  · exact start.log _
  refine iteInduction (fun panic => ?_) fun notPanic => ?_
  · exact Executed.faulted start (Or.inl ((strEq_iff _ _).mp panic))
  refine iteInduction (fun pf => ?_) fun notPf => ?_
  · exact Executed.faulted (start.log _) (Or.inr ((strEq_iff _ _).mp pf))
  · refine Executed.returned (start.log _) (not_or.mpr ⟨?_, ?_⟩)
    · exact fun named => notPanic ((strEq_iff _ _).mpr named)
    · exact fun named => notPf ((strEq_iff _ _).mpr named)

/-- Enter executes the line.  If the command returns, the line is empty afterwards;
otherwise it is what it was. -/
inductive Entered (s : Menu) : Outcome → Prop
  | returned (s' : Menu) (len : s'.cmdLen = 0) (closed : s'.cmdBuf 0 = 0)
      (benign : ¬ Faults (line s)) : Entered s (.returned s')
  | faulted (s' : Menu) (same : line s' = line s) (inv : MenuInv s') (faults : Faults (line s)) :
      Entered s (.faulted s')
  | halted (s' : Menu) (inv : MenuInv s') (benign : ¬ Faults (line s)) : Entered s (.halted s')

/-- The command starts from the line closed at its length. -/
theorem MenuInv.closed {s closed : Menu} (inv : MenuInv s)
    (buf : closed.cmdBuf = Function.update s.cmdBuf s.cmdLen 0)
    (len : closed.cmdLen = s.cmdLen) : MenuInv closed ∧ line closed = line s := by
  have same : ∀ i, i < s.cmdLen → closed.cmdBuf i = s.cmdBuf i := by
    intro i less
    rw [buf]
    exact Function.update_of_ne (Nat.ne_of_lt less) _ _
  refine ⟨⟨len ▸ inv.length, fun i less => ?_⟩, ?_⟩
  · rw [len] at less
    rw [same i less]
    exact inv.chars i less
  · unfold line
    rw [len]
    exact List.map_congr_left fun i member => same i (List.mem_range.mp member)

theorem MenuInv.enter {s : Menu} (inv : MenuInv s) (view : s.activeView = .menu) (stats : Stats)
    {c : UInt8} (enter : IsEnter c) : Entered s (menuHandleKey stats c s) := by
  have start := inv.closed
    (logPrint_cmdBuf (ascii "> " ++ (line s).take 70)
      { s with cmdBuf := Function.update s.cmdBuf s.cmdLen 0 })
    (logPrint_cmdLen _ _)
  unfold menuHandleKey
  split
  · rename_i dashboard
    exact absurd (view.symm.trans dashboard) (by decide)
  dsimp only
  rw [if_pos enter, inv.commandOf_eq]
  generalize logPrint (ascii "> " ++ (line s).take 70)
    { s with cmdBuf := Function.update s.cmdBuf s.cmdLen 0 } = echoed at start ⊢
  have executed := executeCommand_executed stats (line s) echoed
  generalize executeCommand stats (line s) echoed = outcome at executed ⊢
  cases executed with
  | @returned s' _ benign =>
      exact Entered.returned _ rfl (Function.update_self 0 0 s'.cmdBuf) benign
  | @faulted s' same faults =>
      exact Entered.faulted s' ((line_congr same.buf same.len).trans start.2)
        (start.1.congr same.buf same.len) faults
  | @halted s' same benign => exact Entered.halted s' (start.1.congr same.buf same.len) benign

/-! ## Runs -/

structure SystemInv (sys : System) : Prop where
  menu : MenuInv sys.menu
  valid : sys.recoveryValid = true

theorem SystemInv.polledKey {sys : System} (inv : SystemInv sys) (stats : Stats) (c : UInt8) :
    SystemInv (sys.polledKey stats c) := by
  unfold System.polledKey
  by_cases edits : sys.menu.activeView = .dashboard ∨ ¬ IsEnter c
  · rcases inv.menu.edit stats c edits with ⟨s', returned, inv', _⟩
    rw [returned]
    exact ⟨inv', inv.valid⟩
  · rcases not_or.mp edits with ⟨notDashboard, enter⟩
    have view : sys.menu.activeView = .menu := by
      cases view : sys.menu.activeView with
      | menu => rfl
      | dashboard => exact absurd view notDashboard
    have entered := inv.menu.enter view stats (not_not.mp enter)
    generalize menuHandleKey stats c sys.menu = outcome at entered ⊢
    cases entered with
    | returned s' len _ _ => exact ⟨MenuInv.empty len, inv.valid⟩
    | faulted s' _ inv' _ => exact ⟨inv', inv.valid⟩
    | halted s' inv' _ => exact ⟨inv', inv.valid⟩

theorem panicDoRestore_sameLine (s : Menu) : SameLine s (panicDoRestore s) :=
  (SameLine.refl s).log _

theorem panicDoRestore_inv {s : Menu} (inv : MenuInv s) : MenuInv (panicDoRestore s) :=
  inv.congr (panicDoRestore_sameLine s).buf (panicDoRestore_sameLine s).len

theorem SystemInv.key {sys : System} (inv : SystemInv sys) (stats : Stats) (c : UInt8) :
    SystemInv (sys.key stats c) := by
  unfold System.key
  cases sys.mode with
  | polling => exact inv.polledKey stats c
  | panicking =>
      dsimp only
      unfold System.panicKey
      split
      · split
        · exact ⟨panicDoRestore_inv inv.menu, inv.valid⟩
        · exact inv
      · split
        · exact ⟨inv.menu, inv.valid⟩
        · split
          · exact ⟨inv.menu, inv.valid⟩
          · exact inv
  | stopped => exact inv

theorem systemInv_init (cmdBuf : Nat → UInt8) (logHistory : Nat → Nat → UInt8) :
    SystemInv (System.init cmdBuf logHistory) where
  menu := MenuInv.empty (by simp [System.init, menuInit])
  valid := rfl

theorem reachable_systemInv {cmdBuf : Nat → UInt8} {logHistory : Nat → Nat → UInt8} {sys : System}
    (run : System.Reachable (System.init cmdBuf logHistory) sys) : SystemInv sys := by
  induction run with
  | refl => exact systemInv_init cmdBuf logHistory
  | tail _ step inductionHypothesis =>
      rcases step with ⟨stats, c, rfl⟩
      exact inductionHypothesis.key stats c

/-- After an empty prompt the next command is what is typed. -/
theorem typed_command {s next : Menu} {keys : List UInt8} (len : s.cmdLen = 0)
    (typed : Typed s keys next) :
    commandOf next = (keys.foldl editKey (s.activeView, [])).2 := by
  have nothing : line s = [] := by
    apply List.eq_nil_of_length_eq_zero
    rw [line_length, len]
  rcases typed.edits (MenuInv.empty len) with ⟨inv, edited⟩
  rw [nothing] at edited
  rw [inv.commandOf_eq, ← edited]

theorem SystemInv.cleanPrompt_of {sys : System} (inv : SystemInv sys)
    (polling : sys.mode = .polling) (view : sys.menu.activeView = .menu) (stats : Stats)
    (benign : ¬ Faults (line sys.menu)) : CleanPrompt stats sys := by
  intro c enter after returns
  have entered := inv.menu.enter view stats enter
  unfold System.polledKey at returns
  generalize menuHandleKey stats c sys.menu = outcome at entered returns
  cases entered with
  | returned s' len closed _ =>
      cases returns with
      | here _ => exact ⟨len, closed, fun keys next typed _ => typed_command len typed⟩
      | key c panicking _ => exact absurd (polling.symm.trans panicking) (by decide)
  | faulted s' _ _ faults => exact absurd faults benign
  | halted s' _ _ =>
      cases returns with
      | here polling' => exact absurd polling' (by simp)
      | key c panicking _ => exact absurd panicking (by simp)

/-- After a fault and [R] the command is still in the line. -/
theorem SystemInv.not_cleanPrompt_of {sys : System} (inv : SystemInv sys)
    (view : sys.menu.activeView = .menu) (stats : Stats) (faults : Faults (line sys.menu)) :
    ¬ CleanPrompt stats sys := by
  intro clean
  have enter : IsEnter newline := Or.inl rfl
  have entered := inv.menu.enter view stats enter
  have restored := clean newline enter
  unfold System.polledKey at restored
  generalize menuHandleKey stats newline sys.menu = outcome at entered restored
  cases entered with
  | returned _ _ _ benign => exact benign faults
  | halted _ _ benign => exact benign faults
  | faulted s' same _ _ =>
      have back : System.Returns { sys with menu := s', mode := .panicking }
          { sys with menu := panicDoRestore s', mode := .polling } := by
        refine System.Returns.key 114 rfl ?_
        unfold System.panicKey
        rw [if_pos (Or.inl rfl), if_pos inv.valid]
        exact System.Returns.here rfl
      have len : (panicDoRestore s').cmdLen = 0 := (restored _ back).1
      have nothing : line sys.menu = [] := by
        rw [← same]
        apply List.eq_nil_of_length_eq_zero
        rw [line_length, ← len]
        exact (panicDoRestore_sameLine s').len.symm
      rw [nothing] at faults
      exact absurd faults (by decide)

/-- In every run of the shell, Enter leaves an empty prompt behind, whatever happens until
the polling loop is back, if and only if the command is none of the two that fault. -/
theorem cleanPrompt_iff {cmdBuf : Nat → UInt8} {logHistory : Nat → Nat → UInt8} {sys : System}
    (run : System.Reachable (System.init cmdBuf logHistory) sys) (polling : sys.mode = .polling)
    (view : sys.menu.activeView = .menu) (stats : Stats) :
    CleanPrompt stats sys ↔
      commandOf sys.menu ≠ ascii "panic" ∧ commandOf sys.menu ≠ ascii "pf" := by
  have inv := reachable_systemInv run
  rw [inv.menu.commandOf_eq, ← not_or]
  exact ⟨fun clean faults => inv.not_cleanPrompt_of view stats faults clean,
    inv.cleanPrompt_of polling view stats⟩

/-- The shell after keys typed from its start. -/
def afterKeys (keys : List UInt8) : System :=
  keys.foldl (fun sys c => sys.key ⟨0, 0, 0⟩ c) (System.init (fun _ => 0) fun _ _ => 0)

theorem reachable_afterKeys (keys : List UInt8) :
    System.Reachable (System.init (fun _ => 0) fun _ _ => 0) (afterKeys keys) := by
  unfold afterKeys
  induction keys using List.reverseRecOn with
  | nil => exact Relation.ReflTransGen.refl
  | append_singleton keys c inductionHypothesis =>
      rw [List.foldl_append]
      exact inductionHypothesis.tail ⟨_, c, rfl⟩

/-- With "help" in the line. -/
theorem cleanPrompt_iff_help : CleanPrompt ⟨0, 0, 0⟩ (afterKeys (ascii "help")) :=
  (cleanPrompt_iff (reachable_afterKeys _) (by decide) (by decide) _).mpr
    ⟨by decide, by decide⟩

/-- "panic", Enter and [R] leave five characters in the line, and "help" and Enter then
execute "panichelp". -/
theorem not_cleanPrompt_panic :
    let before := afterKeys (ascii "panic")
    let after := afterKeys (ascii "panic" ++ [newline, 114])
    before.mode = .polling ∧ before.menu.activeView = .menu ∧ ¬ CleanPrompt ⟨0, 0, 0⟩ before ∧
      after.mode = .polling ∧ after.menu.cmdLen = 5 ∧
      commandOf (afterKeys (ascii "panic" ++ [newline, 114] ++ ascii "help")).menu =
        ascii "panichelp" := by
  intro before after
  have inv := reachable_systemInv (reachable_afterKeys (ascii "panic"))
  refine ⟨by decide, by decide, ?_, by decide, by decide, by decide⟩
  exact inv.not_cleanPrompt_of (by decide) _ (Or.inl (by decide))

end Shell
end AuraKernel
