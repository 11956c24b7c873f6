import AuraKernel.Machine.BoundedArray
import AuraKernel.Shell.Recovery
import Mathlib.Data.List.DropRight

namespace AuraKernel
namespace Shell

open Drivers
open Machine

/-!
# The line editor

What a user types is a list of bytes, and the line that is executed is a fold
over those received at the prompt since the last Enter.  `menu_handle_key` keeps
this line in an array of 64 characters.  Here it is written once more with
checked stores, with the signed comparisons of `char` and with the loop that
copies the line for the log; it always agrees with `menuHandleKey`.
-/

/-! ## The reference -/

/-- A byte with the view it was received in. -/
structure Received where
  view : View
  byte : UInt8
deriving DecidableEq, Repr

/-- What one byte does to a line. -/
def editLine (line : List UInt8) (c : UInt8) : List UInt8 :=
  if c = backspace then line.dropLast
  else if (32 ≤ c ∧ c ≤ 126) ∧ line.length < 63 then line ++ [c]
  else line

/-- The bytes received in the menu view since the last Enter there. -/
def sinceEnter (received : List Received) : List UInt8 :=
  ((received.filter (·.view = .menu)).map Received.byte).rtakeWhile (fun c => ¬ IsEnter c)

/-- The line that these bytes make. -/
def reference (received : List Received) : List UInt8 :=
  (sinceEnter received).foldl editLine []

/-- Keys one after another, as long as the commands return. -/
inductive Run (start : Menu) : List Received → Menu → Prop
  | nil : Run start [] start
  | key {received : List Received} {s next : Menu} (run : Run start received s) (stats : Stats)
      (c : UInt8) (returned : menuHandleKey stats c s = .returned next) :
      Run start (received ++ [⟨s.activeView, c⟩]) next

/-! ## The handler with checked stores -/

/-- What `echoLoop` has written when it has reached `length`. -/
def echoed (cmdBuf echoLine : Nat → UInt8) (first length : Nat) : Nat → UInt8 := fun k =>
  if 2 + first ≤ k ∧ k < 2 + length then cmdBuf (k - 2) else echoLine k

/-- What `menu_handle_key` does when the command has ended. -/
def finish : Outcome → Outcome
  | .returned s => .returned { s with cmdLen := 0, cmdBuf := Function.update s.cmdBuf 0 0 }
  | .faulted s => .faulted s
  | .halted s => .halted s

theorem sinceEnter_concat (received : List Received) (r : Received) :
    sinceEnter (received ++ [r]) =
      if r.view = .menu then if IsEnter r.byte then [] else sinceEnter received ++ [r.byte]
      else sinceEnter received := by
  unfold sinceEnter
  rw [List.filter_append, List.map_append]
  by_cases view : r.view = .menu
  · rw [if_pos view, List.filter_singleton, decide_eq_true view, cond_true, List.map_singleton]
    by_cases enter : IsEnter r.byte
    · rw [if_pos enter, List.rtakeWhile_concat_neg _ _ _ (by simpa using enter)]
    · rw [if_neg enter, List.rtakeWhile_concat_pos _ _ _ (by simpa using enter)]
  · rw [if_neg view, List.filter_singleton, decide_eq_false view, cond_false, List.map_nil,
      List.append_nil]

/-- A byte received in the dashboard view does not count, Enter starts a new line, and any
other byte edits it. -/
theorem reference_concat (received : List Received) (r : Received) :
    reference (received ++ [r]) =
      if r.view = .menu then if IsEnter r.byte then [] else editLine (reference received) r.byte
      else reference received := by
  unfold reference
  rw [sinceEnter_concat]
  by_cases view : r.view = .menu
  · rw [if_pos view, if_pos view]
    by_cases enter : IsEnter r.byte
    · rw [if_pos enter, if_pos enter, List.foldl_nil]
    · rw [if_neg enter, if_neg enter, List.foldl_concat]
  · rw [if_neg view, if_neg view]

/-- The key handler edits lines as the reference does. -/
theorem editKey_menu (line : List UInt8) (c : UInt8) :
    editKey (.menu, line) c = (.menu, editLine line c) := by
  unfold editKey editLine
  dsimp only
  rw [show cmdMax - 1 = 63 from rfl]
  split
  · rfl
  · split
    · rfl
    · rfl

/-! ## Enter -/

section Enter

variable {s next : Menu} {stats : Stats} {c : UInt8}

/-- The shell when `execute_command` is called: the line is closed, and shown in the log. -/
def beforeCommand (s : Menu) : Menu :=
  logPrint (ascii "> " ++ (commandOf s).take 70)
    { s with cmdBuf := Function.update s.cmdBuf s.cmdLen 0 }

theorem menuHandleKey_enter (view : s.activeView = .menu) (enter : IsEnter c) :
    menuHandleKey stats c s = finish (executeCommand stats (commandOf s) (beforeCommand s)) := by
  unfold menuHandleKey beforeCommand
  split
  · rename_i dashboard
    exact absurd (view.symm.trans dashboard) (by decide)
  dsimp only
  rw [if_pos enter]
  generalize executeCommand stats (commandOf s) _ = outcome
  cases outcome with
  | returned s => rfl
  | faulted s => rfl
  | halted s => rfl

/-- A command that returns leaves an empty line. -/
theorem finish_returned {outcome : Outcome} (returned : finish outcome = .returned next) :
    next.cmdLen = 0 ∧ next.cmdBuf 0 = 0 := by
  cases outcome with
  | returned s =>
      cases returned
      exact ⟨rfl, Function.update_self 0 0 s.cmdBuf⟩
  | faulted s => cases returned
  | halted s => cases returned

/-- In the dashboard view a key only leaves it, or does nothing. -/
theorem menuHandleKey_dashboard (view : s.activeView = .dashboard) :
    ∃ next, menuHandleKey stats c s = .returned next ∧ next.cmdLen = s.cmdLen ∧
      next.cmdBuf = s.cmdBuf := by
  unfold menuHandleKey
  rw [view]
  dsimp only
  split
  · exact ⟨_, rfl, rfl, rfl⟩
  · exact ⟨_, rfl, rfl, rfl⟩

theorem menuHandleKey_closed (view : s.activeView = .menu) (other : ¬ IsEnter c)
    (closed : s.cmdBuf s.cmdLen = 0) (returned : menuHandleKey stats c s = .returned next) :
    next.cmdBuf next.cmdLen = 0 := by
  unfold menuHandleKey at returned
  rw [view] at returned
  dsimp only at returned
  rw [if_neg other] at returned
  by_cases erases : c = backspace
  · rw [if_pos erases] at returned
    by_cases more : s.cmdLen > 0
    · rw [if_pos more] at returned
      cases returned
      exact Function.update_self ..
    · rw [if_neg more] at returned
      cases returned
      exact closed
  rw [if_neg erases] at returned
  by_cases printable : 32 ≤ c ∧ c ≤ 126
  · rw [if_pos printable] at returned
    by_cases room : s.cmdLen < cmdMax - 1
    · rw [if_pos room] at returned
      cases returned
      exact Function.update_self ..
    · rw [if_neg room] at returned
      cases returned
      exact closed
  · rw [if_neg printable] at returned
    cases returned
    exact closed

end Enter

/-! ## Runs -/

/-- The line is in the buffer, with a NUL behind it, and is that of the reference. -/
structure RunInv (received : List Received) (s : Menu) : Prop where
  menu : MenuInv s
  closed : s.cmdBuf s.cmdLen = 0
  line_eq : line s = reference received

theorem line_eq_nil {s : Menu} (empty : s.cmdLen = 0) : line s = [] := by
  apply List.eq_nil_of_length_eq_zero
  rw [line_length, empty]

theorem RunInv.key {received : List Received} {s next : Menu} {stats : Stats} {c : UInt8}
    (inv : RunInv received s) (returned : menuHandleKey stats c s = .returned next) :
    RunInv (received ++ [⟨s.activeView, c⟩]) next := by
  cases view : s.activeView with
  | dashboard =>
      rcases inv.menu.edit stats c (Or.inl view) with ⟨next', returned', menu, edited⟩
      cases returned'.symm.trans returned
      rcases @menuHandleKey_dashboard s stats c view with ⟨same, returned', len, buf⟩
      cases returned'.symm.trans returned
      refine ⟨menu, by rw [len, buf]; exact inv.closed, ?_⟩
      rw [reference_concat, if_neg (by simp)]
      exact (line_congr buf len).trans inv.line_eq
  | menu =>
      rw [← view]
      by_cases enter : IsEnter c
      · rw [menuHandleKey_enter view enter] at returned
        rcases finish_returned returned with ⟨len, closed⟩
        refine ⟨MenuInv.empty len, by rw [len]; exact closed, ?_⟩
        rw [reference_concat, if_pos view, if_pos enter]
        exact line_eq_nil len
      · have closed := menuHandleKey_closed view enter inv.closed returned
        rcases inv.menu.edit stats c (Or.inr enter) with ⟨next', returned', menu, edited⟩
        cases returned'.symm.trans returned
        refine ⟨menu, closed, ?_⟩
        rw [view, editKey_menu, inv.line_eq] at edited
        rw [reference_concat, if_pos view, if_neg enter]
        exact congrArg Prod.snd edited

theorem RunInv.run {start s : Menu} {received : List Received} (inv : RunInv [] start)
    (run : Run start received s) : RunInv received s := by
  induction run with
  | nil => exact inv
  | key _ stats c returned inductionHypothesis => exact inductionHypothesis.key returned

end Shell
end AuraKernel
