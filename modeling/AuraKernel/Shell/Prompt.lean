import AuraKernel.Shell.LineEditor

namespace AuraKernel
namespace Shell

open Drivers

/-!
# The shell as a function of its input

What the user sees of the shell is which view is shown, the line in front of the
cursor, and which commands are executed.  All three depend on the bytes the shell
was given and on nothing else: not on the buffer, the log, or on how often the
machine faulted and was restored in between.
-/

/-- What a byte does to the view and the line. -/
def promptKey (prompt : View × List UInt8) (c : UInt8) : View × List UInt8 :=
  if prompt.1 = .menu ∧ IsEnter c then
    -- the line of a command that faults is still there after the recovery
    if Faults prompt.2 then prompt
    else if prompt.2 = ascii "dashboard" then (.dashboard, [])
    else (.menu, [])
  else editKey prompt c

/-- The command that a byte executes. -/
def commandKey (prompt : View × List UInt8) (c : UInt8) : List (List UInt8) :=
  if prompt.1 = .menu ∧ IsEnter c then [prompt.2] else []

/-- The view and the line after some bytes. -/
def promptAfter (keys : List UInt8) : View × List UInt8 := keys.foldl promptKey (.menu, [])

/-- The commands that some bytes execute. -/
def commandsBy (keys : List UInt8) : List (List UInt8) :=
  (keys.foldl (fun done c => (promptKey done.1 c, done.2 ++ commandKey done.1 c))
    ((View.menu, ([] : List UInt8)), ([] : List (List UInt8)))).2

theorem promptAfter_concat (keys : List UInt8) (c : UInt8) :
    promptAfter (keys ++ [c]) = promptKey (promptAfter keys) c := by
  unfold promptAfter
  rw [List.foldl_append]
  rfl

theorem commandsBy_concat (keys : List UInt8) (c : UInt8) :
    commandsBy (keys ++ [c]) = commandsBy keys ++ commandKey (promptAfter keys) c := by
  have prompt : ∀ done : (View × List UInt8) × List (List UInt8),
      (keys.foldl (fun done c => (promptKey done.1 c, done.2 ++ commandKey done.1 c)) done).1 =
        keys.foldl promptKey done.1 := by
    intro done
    induction keys generalizing done with
    | nil => rfl
    | cons key keys inductionHypothesis => exact inductionHypothesis _
  unfold commandsBy
  rw [List.foldl_append, List.foldl_cons, List.foldl_nil, prompt]
  rfl

/-! ## The view -/

@[simp] theorem logPrint_activeView (msg : List UInt8) (s : Menu) :
    (logPrint msg s).activeView = s.activeView := by
  unfold logPrint
  split
  all_goals rfl

/-- The menu at the end of a function of the shell. -/
def Outcome.menu : Outcome → Menu
  | returned s => s
  | faulted s => s
  | halted s => s

/-- The view after a command: one command changes it. -/
def Shown (s : Menu) (cmd : List UInt8) (outcome : Outcome) : Prop :=
  outcome.menu.activeView = if cmd = ascii "dashboard" then .dashboard else s.activeView

theorem Shown.same {s : Menu} {cmd : List UInt8} {outcome : Outcome}
    (other : cmd ≠ ascii "dashboard") (same : outcome.menu.activeView = s.activeView) :
    Shown s cmd outcome := by
  unfold Shown
  rw [if_neg other]
  exact same

theorem executeCommand_shown (stats : Stats) (cmd : List UInt8) (s : Menu) :
    Shown s cmd (executeCommand stats cmd s) := by
  have named : ∀ {name : String}, strEq cmd (ascii name) = true →
      ascii name ≠ ascii "dashboard" → cmd ≠ ascii "dashboard" := by
    intro name same other
    rw [(strEq_iff _ _).mp same]
    exact other
  unfold executeCommand
  -- one case for each command, in the order of the source
  refine iteInduction (fun empty => Shown.same ?_ rfl) fun _ => ?_
  · rw [empty]
    decide
  refine iteInduction (fun help => Shown.same (named help (by decide)) ?_) fun _ => ?_
  · simp only [Outcome.menu, logPrint_activeView]
  refine iteInduction (fun info => Shown.same (named info (by decide)) ?_) fun _ => ?_
  · simp only [Outcome.menu, logPrint_activeView]
  refine iteInduction (fun mem => Shown.same (named mem (by decide)) ?_) fun _ => ?_
  · simp only [Outcome.menu, logPrint_activeView]
  refine iteInduction (fun clear => Shown.same (named clear (by decide)) rfl) fun _ => ?_
  refine iteInduction (fun dashboard => ?_) fun notDashboard => ?_
  · unfold Shown
    rw [if_pos ((strEq_iff _ _).mp dashboard)]
    rfl
  have other : cmd ≠ ascii "dashboard" := fun same => notDashboard ((strEq_iff _ _).mpr same)
  refine iteInduction (fun _ => Shown.same other ?_) fun _ => ?_
  · exact logPrint_activeView _ _
  refine iteInduction (fun _ => Shown.same other rfl) fun _ => ?_
  refine iteInduction (fun _ => Shown.same other ?_) fun _ => Shown.same other ?_
  · exact logPrint_activeView _ _
  · exact logPrint_activeView _ _

@[simp] theorem beforeCommand_activeView (s : Menu) :
    (beforeCommand s).activeView = s.activeView :=
  logPrint_activeView _ _

@[simp] theorem finish_activeView (outcome : Outcome) :
    (finish outcome).menu.activeView = outcome.menu.activeView := by
  cases outcome with
  | returned s => rfl
  | faulted s => rfl
  | halted s => rfl

/-! ## One byte -/

/-- The view and the line of a menu. -/
def prompt (s : Menu) : View × List UInt8 := (s.activeView, line s)

theorem SystemInv.promptKey_edits {sys : System} (inv : SystemInv sys) (stats : Stats) {c : UInt8}
    (edits : ¬ (sys.menu.activeView = .menu ∧ IsEnter c)) :
    ∃ s', menuHandleKey stats c sys.menu = .returned s' ∧ prompt s' = promptKey (prompt sys.menu) c
      := by
  have typed : sys.menu.activeView = .dashboard ∨ ¬ IsEnter c := by
    cases view : sys.menu.activeView with
    | dashboard => exact Or.inl rfl
    | menu => exact Or.inr fun enter => edits ⟨view, enter⟩
  rcases inv.menu.edit stats c typed with ⟨s', returned, _, edited⟩
  refine ⟨s', returned, ?_⟩
  unfold promptKey
  rw [if_neg (show ¬ ((prompt sys.menu).1 = .menu ∧ IsEnter c) from edits)]
  exact edited

theorem SystemInv.promptKey_enter {sys : System} (inv : SystemInv sys) (stats : Stats) {c : UInt8}
    (view : sys.menu.activeView = .menu) (enter : IsEnter c) :
    match menuHandleKey stats c sys.menu with
    | .returned s' => prompt s' = promptKey (prompt sys.menu) c
    | .faulted s' => prompt s' = promptKey (prompt sys.menu) c
    | .halted _ => True := by
  have entered := inv.menu.enter view stats enter
  have viewAfter : (menuHandleKey stats c sys.menu).menu.activeView =
      if line sys.menu = ascii "dashboard" then .dashboard else .menu := by
    have shown := executeCommand_shown stats (commandOf sys.menu) (beforeCommand sys.menu)
    unfold Shown at shown
    rw [beforeCommand_activeView, view] at shown
    rw [menuHandleKey_enter view enter, finish_activeView, ← inv.menu.commandOf_eq]
    exact shown
  unfold promptKey prompt
  generalize menuHandleKey stats c sys.menu = outcome at entered viewAfter ⊢
  cases entered with
  | returned s' len _ benign =>
      dsimp only
      have nothing : line s' = [] := by
        apply List.eq_nil_of_length_eq_zero
        rw [line_length, len]
      rw [if_pos ⟨view, enter⟩, if_neg benign, show s'.activeView = _ from viewAfter, nothing]
      split
      all_goals rfl
  | faulted s' same _ faults =>
      have other : line sys.menu ≠ ascii "dashboard" := by
        rcases faults with panic | pf
        · rw [panic]
          decide
        · rw [pf]
          decide
      dsimp only
      rw [if_pos ⟨view, enter⟩, if_pos faults, show s'.activeView = _ from viewAfter, if_neg other,
        same, view]
  | halted s' _ _ => trivial

/-- A key in `kernel_main` does to the view and the line what the reference says, unless it
halts the machine. -/
theorem SystemInv.prompt_polledKey {sys : System} (inv : SystemInv sys) (stats : Stats) (c : UInt8)
    (goesOn : (sys.polledKey stats c).mode ≠ .stopped) :
    prompt (sys.polledKey stats c).menu = promptKey (prompt sys.menu) c := by
  unfold System.polledKey at goesOn ⊢
  by_cases executes : sys.menu.activeView = .menu ∧ IsEnter c
  · have known := inv.promptKey_enter stats executes.1 executes.2
    generalize menuHandleKey stats c sys.menu = outcome at known goesOn ⊢
    cases outcome with
    | returned s => exact known
    | faulted s => exact known
    | halted s => exact absurd rfl goesOn
  · rcases inv.promptKey_edits stats executes with ⟨s', returned, edited⟩
    rw [returned]
    exact edited

/-- The panic screen leaves the view and the line alone. -/
theorem prompt_panicKey (c : UInt8) (sys : System) : prompt (sys.panicKey c).menu = prompt sys.menu
    := by
  have restored : prompt (panicDoRestore sys.menu) = prompt sys.menu := by
    unfold prompt
    rw [line_congr (panicDoRestore_sameLine sys.menu).buf (panicDoRestore_sameLine sys.menu).len]
    exact congrArg (·, line sys.menu) (logPrint_activeView _ _)
  unfold System.panicKey
  split
  · split
    · exact restored
    · rfl
  · split
    · rfl
    · split
      · rfl
      · rfl

theorem SystemInv.panicKey {sys : System} (inv : SystemInv sys) (c : UInt8) :
    SystemInv (sys.panicKey c) := by
  unfold System.panicKey
  split
  · split
    · exact ⟨panicDoRestore_inv inv.menu, inv.valid⟩
    · exact inv
  · split
    · exact ⟨inv.menu, inv.valid⟩
    · split
      · exact ⟨inv.menu, inv.valid⟩
      · exact inv

end Shell
end AuraKernel
