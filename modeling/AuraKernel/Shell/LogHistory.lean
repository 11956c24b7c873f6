import AuraKernel.Machine.BoundedArray
import AuraKernel.Shell.Recovery
import Mathlib.Data.List.DropRight

namespace AuraKernel
namespace Shell

open Drivers
open Machine

/-!
# The console log

The log is a queue that remembers the last eight messages.  `log_print` keeps it
in an array of eight rows of 80 characters: while there is a free row it fills
the next one, and from then on it moves every row up and writes the last one.
`clear` and `menu_init` only reset the count, so a row may still hold the tail of
an older message.  The function is written once more with checked accesses to
the array here; on the array it does the same as `logPrint`.
-/

/-! ## The array -/

/-- The number of characters of a row of `log_history` -/
def logWidth : Nat := 80

def loadCell (history : Nat → Nat → UInt8) (row col : Nat) : Option UInt8 := do
  let cells ← loadAt logLines history row
  loadAt logWidth cells col

def storeCell (history : Nat → Nat → UInt8) (row col : Nat) (c : UInt8) :
    Option (Nat → Nat → UInt8) := do
  let cells ← loadAt logLines history row
  let cells ← storeAt logWidth cells col c
  storeAt logLines history row cells

/-- `while (msg[i] && i < 78)`, for the rest of the message from `i` on: the last `i`, and the
history -/
def copyMsg (row : Nat) : List UInt8 → Nat → (Nat → Nat → UInt8) →
    Option (Nat × (Nat → Nat → UInt8))
  | [], i, history => some (i, history)
  | c :: msg, i, history =>
      if i < 78 then do
        let history ← storeCell history row i c
        copyMsg row msg (i + 1) history
      else some (i, history)

/-- The loops that scroll the history. -/
def scrollHistory (history : Nat → Nat → UInt8) : Option (Nat → Nat → UInt8) :=
  forRange 0 (logLines - 1) (fun row history =>
    forRange 0 logWidth (fun col history => do
      let c ← loadCell history (row + 1) col
      storeCell history row col c) history) history

/-- `log_print` with checked accesses -/
def checkedLogPrint (msg : List UInt8) (s : Menu) : Option Menu :=
  if s.logCount < logLines then do
    let (i, history) ← copyMsg s.logCount msg 0 s.logHistory
    let history ← storeCell history s.logCount i 0
    some { s with logHistory := history, logCount := s.logCount + 1 }
  else do
    let history ← scrollHistory s.logHistory
    let (i, history) ← copyMsg (logLines - 1) msg 0 history
    let history ← storeCell history (logLines - 1) i 0
    some { s with logHistory := history }

/-! ## Calls -/

def CText : Type := { text : List UInt8 // 0 ∉ text }

/-- What changes the log: `log_print` and `menu_log`, the command `clear`, and `menu_init`. -/
inductive LogCall
  | print (msg : CText)
  | clear (stats : Stats)
  | init

def greeting : List (List UInt8) :=
  [ascii "AuraOS Command Shell ready.",
    ascii "Type 'help' for commands, or 'dashboard' for btop view."]

/-- A call, which has no result if it writes outside an array. -/
def LogCall.run : LogCall → Menu → Option Menu
  | print msg, s => checkedLogPrint msg.val s
  | clear stats, s =>
      match executeCommand stats (ascii "clear") s with
      | .returned s => some s
      | _ => none
  | init, s => do
      let cmdBuf ← storeAt cmdMax s.cmdBuf 0 0
      let s : Menu := { s with cmdLen := 0, cmdBuf := cmdBuf, logCount := 0, activeView := .menu }
      let s ← checkedLogPrint (ascii "AuraOS Command Shell ready.") s
      checkedLogPrint (ascii "Type 'help' for commands, or 'dashboard' for btop view.") s

def runLogCalls : List LogCall → Menu → Option Menu
  | [], s => some s
  | call :: calls, s => (call.run s).bind (runLogCalls calls)

/-- The static variables of `menu.c` at the start, with arrays of any contents. -/
def staticMenu (cmdBuf : Nat → UInt8) (logHistory : Nat → Nat → UInt8) : Menu where
  cmdBuf := cmdBuf
  cmdLen := 0
  logHistory := logHistory
  logCount := 0
  activeView := .menu

/-! ## The reference -/

/-- The messages since the log was last reset, when there were `messages` before the call. -/
def LogCall.messages (messages : List (List UInt8)) : LogCall → List (List UInt8)
  | print msg => messages ++ [msg.val]
  | clear _ => []
  | init => greeting

/-- The messages since the last `clear` or `menu_init`. -/
def sinceReset (calls : List LogCall) : List (List UInt8) := calls.foldl LogCall.messages []

/-- The strings in the rows of the log that are in use, the oldest first. -/
def shownLog (s : Menu) : List (List UInt8) :=
  (List.range s.logCount).map fun row => cString logWidth (s.logHistory row)

/-- The row is closed within its first 79 characters. -/
def Closed (cells : Nat → UInt8) : Prop :=
  (cString logWidth cells).length ≤ 78 ∧ cells (cString logWidth cells).length = 0

/-- The log shows the last eight messages, cut to 78 characters, and every row that it shows
is closed inside its array. -/
structure KeepsLast (messages : List (List UInt8)) (s : Menu) : Prop where
  count_eq : s.logCount = min 8 messages.length
  shown_eq : shownLog s = (messages.rtake s.logCount).map (List.take 78)
  closed : ∀ row, row < s.logCount → Closed (s.logHistory row)

/-! ## The loops -/

section Loops

variable {history : Nat → Nat → UInt8} {cells : Nat → UInt8} {row col : Nat}

theorem loadCell_of_lt (inside : row < logLines) (narrow : col < logWidth) :
    loadCell history row col = some (history row col) := by
  unfold loadCell
  rw [loadAt_of_lt inside]
  exact loadAt_of_lt narrow

theorem storeCell_update (inside : row < logLines) (narrow : col < logWidth) (c : UInt8) :
    storeCell (Function.update history row cells) row col c =
      some (Function.update history row (Function.update cells col c)) := by
  unfold storeCell
  simp only [loadAt_of_lt inside, storeAt_of_lt narrow, storeAt_of_lt inside, Function.update_self,
    Function.update_idem, Option.bind_eq_bind, Option.bind_some]

/-- The loop writes the message up to 78 characters. -/
theorem copyMsg_eq (inside : row < logLines) (msg : List UInt8) {i : Nat} (le : i ≤ 78) :
    copyMsg row msg i (Function.update history row cells) =
      some (min (i + msg.length) 78, Function.update history row
        (patch i (min (i + msg.length) 78) (fun col => msg.getD (col - i) 0) cells)) := by
  induction msg generalizing i cells with
  | nil =>
      rw [copyMsg, List.length_nil, Nat.add_zero, Nat.min_eq_left le, patch_empty]
  | cons c msg inductionHypothesis =>
      rw [copyMsg]
      by_cases room : i < 78
      · rw [if_pos room, storeCell_update inside (by unfold logWidth; omega)]
        simp only [Option.bind_eq_bind, Option.bind_some]
        rw [inductionHypothesis room, List.length_cons, show i + 1 + msg.length =
          i + (msg.length + 1) by omega]
        refine congrArg (fun cells => some (_, Function.update history row cells)) ?_
        funext col
        by_cases here : col = i
        · rw [patch_outside (by omega), here, Function.update_self, patch_inside (by omega),
            Nat.sub_self]
          rfl
        · by_cases behind : i + 1 ≤ col ∧ col < min (i + (msg.length + 1)) 78
          · rw [patch_inside behind, patch_inside (by omega), show col - i = col - (i + 1) + 1 by
              omega]
            rfl
          · rw [patch_outside (by omega), Function.update_of_ne here, patch_outside (by omega)]
      · rw [if_neg room, show min (i + (c :: msg).length) 78 = i by omega, patch_empty]

/-- The message with its NUL, as in `logPrint`. -/
theorem writeRow_eq (inside : row < logLines) (msg : List UInt8) :
    (do
      let (i, history) ← copyMsg row msg 0 history
      storeCell history row i 0) =
      some (Function.update history row (copyRow msg (history row))) := by
  have copied := @copyMsg_eq history (history row) row inside msg 0 (Nat.zero_le _)
  rw [Function.update_eq_self, Nat.zero_add] at copied
  rw [copied]
  simp only [Option.bind_eq_bind, Option.bind_some]
  rw [storeCell_update inside (by unfold logWidth; omega)]
  refine congrArg (fun cells => some (Function.update history row cells)) (funext fun col => ?_)
  unfold copyRow
  by_cases here : col = min msg.length 78
  · rw [here, Function.update_self, if_neg (Nat.lt_irrefl _), if_pos rfl]
  · rw [Function.update_of_ne here]
    by_cases copied : col < min msg.length 78
    · rw [patch_inside ⟨Nat.zero_le _, copied⟩, if_pos copied]
      rfl
    · rw [patch_outside (Or.inr (Nat.not_lt.mp copied)), if_neg copied, if_neg here]

/-- The history whose first `count` rows have been moved up. -/
def movedUp (history : Nat → Nat → UInt8) (count : Nat) : Nat → Nat → UInt8 := fun row =>
  if row < count then patch 0 logWidth (history (row + 1)) (history row) else history row

/-- One row is copied from the row below it. -/
theorem moveUp_eq (inside : row + 1 < logLines) :
    forRange 0 logWidth (fun col history => do
      let c ← loadCell history (row + 1) col
      storeCell history row col c) history =
      some (Function.update history row
        (patch 0 logWidth (history (row + 1)) (history row))) := by
  rcases @forRange_rule _ (fun col moved => moved =
      Function.update history row (patch 0 col (history (row + 1)) (history row)))
    (fun col history => do
      let c ← loadCell history (row + 1) col
      storeCell history row col c) 0 logWidth history
    (by rw [patch_empty, Function.update_eq_self]) (by
      rintro col moved - narrow rfl
      rw [Nat.zero_add] at narrow
      refine ⟨_, ?_, rfl⟩
      rw [loadCell_of_lt inside narrow, Function.update_of_ne (Nat.succ_ne_self row)]
      exact (storeCell_update (Nat.lt_of_succ_lt inside) narrow _).trans
        (congrArg (fun cells => some (Function.update history row cells))
          (update_patch (Nat.zero_le col)))) with ⟨moved, ran, rfl⟩
  rw [ran, Nat.zero_add]

theorem scrollHistory_eq : scrollHistory history = some (movedUp history (logLines - 1)) := by
  rcases @forRange_rule _ (fun row moved => moved = movedUp history row)
    (fun row history => forRange 0 logWidth (fun col history => do
      let c ← loadCell history (row + 1) col
      storeCell history row col c) history) 0 (logLines - 1) history
    (funext fun row => (if_neg (Nat.not_lt_zero row)).symm) (by
      rintro row moved - less rfl
      have inside : row + 1 < logLines := by
        unfold logLines at *
        omega
      refine ⟨_, moveUp_eq inside, funext fun other => ?_⟩
      have below : movedUp history row (row + 1) = history (row + 1) :=
        if_neg (Nat.not_lt.mpr (Nat.le_succ row))
      have self : movedUp history row row = history row := if_neg (Nat.lt_irrefl row)
      rw [below, self]
      by_cases here : other = row
      · rw [here, Function.update_self]
        exact (if_pos (Nat.lt_succ_self row)).symm
      · rw [Function.update_of_ne here]
        unfold movedUp
        by_cases earlier : other < row
        · rw [if_pos earlier, if_pos (Nat.lt_succ_of_lt earlier)]
        · rw [if_neg earlier, if_neg (by omega)]) with ⟨moved, ran, rfl⟩
  unfold scrollHistory
  rw [ran, Nat.zero_add]

end Loops

/-! ## The queue -/

/-- A queue that keeps the last `n` elements of a stream does so after one more element. -/
theorem rtake_concat_kept {α : Type*} {stream : List α} {n kept : Nat}
    (all : kept = min n stream.length) (element : α) :
    (stream.rtake kept ++ [element]).rtake n = (stream ++ [element]).rtake (min n (kept + 1)) := by
  have le : stream.length - kept ≤ stream.length := Nat.sub_le _ _
  unfold List.rtake
  rw [← List.drop_append_of_le_length le, List.drop_drop]
  refine congrArg (fun count => (stream ++ [element]).drop count) ?_
  rw [List.length_drop, List.length_append, List.length_singleton]
  omega

theorem rtake_map {α β : Type*} (f : α → β) (stream : List α) (n : Nat) :
    (stream.map f).rtake n = (stream.rtake n).map f := by
  unfold List.rtake
  rw [List.map_drop, List.length_map]

/-! ## One message -/

/-- The two menus differ at most in memory outside the array of the log. -/
structure OnArray (s t : Menu) : Prop where
  fields : { s with logHistory := t.logHistory } = t
  cell_eq : ∀ row, row < logLines → ∀ col, col < logWidth →
    s.logHistory row col = t.logHistory row col

section Print

variable {s t : Menu} {msg : List UInt8}

theorem OnArray.count_eq (same : OnArray s t) : s.logCount = t.logCount := by
  rw [← same.fields]

/-- The checked function stays in the array, where it does the same as `logPrint`. -/
theorem checkedLogPrint_agrees (msg : List UInt8) (s : Menu) :
    ∃ s', checkedLogPrint msg s = some s' ∧ OnArray s' (logPrint msg s) := by
  unfold checkedLogPrint logPrint
  by_cases free : s.logCount < logLines
  · rw [if_pos free, if_pos free]
    have written := @writeRow_eq s.logHistory s.logCount free msg
    simp only [Option.bind_eq_bind] at written ⊢
    rcases Option.bind_eq_some_iff.mp written with ⟨⟨i, history⟩, copied, closed⟩
    rw [copied]
    simp only [Option.bind_some] at closed ⊢
    rw [closed]
    exact ⟨_, rfl, rfl, fun row _ col _ => rfl⟩
  · rw [if_neg free, if_neg free]
    have written := @writeRow_eq (movedUp s.logHistory (logLines - 1)) (logLines - 1)
      (by decide) msg
    simp only [Option.bind_eq_bind, scrollHistory_eq, Option.bind_some] at written ⊢
    rcases Option.bind_eq_some_iff.mp written with ⟨⟨i, history⟩, copied, closed⟩
    rw [copied]
    simp only [Option.bind_some] at closed ⊢
    rw [closed]
    refine ⟨_, rfl, rfl, fun row inside col narrow => ?_⟩
    dsimp only
    by_cases last : row = logLines - 1
    · rw [last, Function.update_self, Function.update_self]
      rfl
    · have earlier : row < logLines - 1 := by
        unfold logLines at *
        omega
      rw [Function.update_of_ne last, Function.update_of_ne last, if_pos earlier]
      unfold movedUp
      rw [if_pos earlier]
      exact patch_inside ⟨Nat.zero_le col, narrow⟩

/-- A row holds the message up to 78 characters. -/
theorem cString_copyRow (text : 0 ∉ msg) (cells : Nat → UInt8) :
    cString logWidth (copyRow msg cells) = msg.take 78 ∧
      copyRow msg cells (msg.take 78).length = 0 := by
  have chars : ∀ i (short : i < msg.length), i < 78 → copyRow msg cells i = msg[i] := by
    intro i short narrow
    unfold copyRow
    rw [if_pos (lt_min short narrow), List.getD_eq_getElem?_getD, List.getElem?_eq_getElem short]
    rfl
  have closed : copyRow msg cells (min msg.length 78) = 0 := by
    unfold copyRow
    rw [if_neg (Nat.lt_irrefl _), if_pos rfl]
  have inside : min msg.length 78 < logWidth := by
    unfold logWidth
    omega
  constructor
  · rw [cString_eq inside ?_ closed]
    · apply List.ext_getElem
      · rw [List.length_map, List.length_range, List.length_take, Nat.min_comm]
      · intro i short _
        rw [List.length_map, List.length_range] at short
        rw [List.getElem_map, List.getElem_range, List.getElem_take]
        exact chars i (by omega) (by omega)
    · intro i copied null
      rw [chars i (by omega) (by omega)] at null
      exact text (null ▸ List.getElem_mem _)
  · rw [List.length_take, Nat.min_comm]
    exact closed

/-- Only the array counts for what the log shows. -/
theorem OnArray.cString_eq (same : OnArray s t) {row : Nat} (inside : row < logLines) :
    cString logWidth (s.logHistory row) = cString logWidth (t.logHistory row) := by
  unfold cString
  refine congrArg (List.takeWhile _) (List.map_congr_left fun col member => ?_)
  exact same.cell_eq row inside col (List.mem_range.mp member)

theorem OnArray.shownLog_eq (same : OnArray s t) (le : t.logCount ≤ logLines) :
    shownLog s = shownLog t := by
  unfold shownLog
  rw [same.count_eq]
  refine List.map_congr_left fun row member => same.cString_eq ?_
  exact Nat.lt_of_lt_of_le (List.mem_range.mp member) le

theorem logPrint_logCount (le : s.logCount ≤ logLines) :
    (logPrint msg s).logCount = min 8 (s.logCount + 1) := by
  unfold logPrint logLines at *
  by_cases free : s.logCount < 8
  · rw [if_pos free]
    exact (Nat.min_eq_right free).symm
  · rw [if_neg free]
    change s.logCount = _
    omega

theorem length_shownLog (s : Menu) : (shownLog s).length = s.logCount := by
  unfold shownLog
  rw [List.length_map, List.length_range]

/-- The log is a queue that remembers eight messages. -/
theorem logPrint_shownLog (le : s.logCount ≤ logLines) (text : 0 ∉ msg) :
    shownLog (logPrint msg s) = (shownLog s ++ [msg.take 78]).rtake 8 := by
  have length := length_shownLog s
  unfold logPrint
  by_cases free : s.logCount < logLines
  · have whole : (shownLog s ++ [msg.take 78]).rtake 8 = shownLog s ++ [msg.take 78] := by
      unfold List.rtake
      rw [List.length_append, length, List.length_singleton,
        Nat.sub_eq_zero_of_le (show s.logCount + 1 ≤ 8 from free), List.drop_zero]
    rw [if_pos free, whole]
    unfold shownLog
    dsimp only
    rw [List.range_succ, List.map_append, List.map_singleton, Function.update_self,
      (cString_copyRow text _).1]
    refine congrArg (· ++ _) (List.map_congr_left fun row member => ?_)
    rw [Function.update_of_ne (Nat.ne_of_lt (List.mem_range.mp member))]
  · have full : s.logCount = 7 + 1 := Nat.le_antisymm le (Nat.not_lt.mp free)
    have rest : (shownLog s).rtake 7 =
        (List.range 7).map fun row => cString logWidth (s.logHistory (row + 1)) := by
      unfold List.rtake
      rw [length, full]
      unfold shownLog
      rw [full, List.range_succ_eq_map, List.map_cons, List.map_map]
      rfl
    rw [if_neg free, List.rtake_concat_succ, rest]
    unfold shownLog
    dsimp only
    rw [full, List.range_succ, List.map_append, List.map_singleton,
      show Function.update _ (logLines - 1) _ 7 = _ from Function.update_self _ _ _,
      (cString_copyRow text _).1]
    refine congrArg (· ++ _) (List.map_congr_left fun row member => ?_)
    have earlier := List.mem_range.mp member
    rw [Function.update_of_ne (show row ≠ logLines - 1 from Nat.ne_of_lt earlier)]
    exact congrArg (cString logWidth) (if_pos earlier)

theorem closed_copyRow (text : 0 ∉ msg) (cells : Nat → UInt8) : Closed (copyRow msg cells) := by
  rcases cString_copyRow text cells with ⟨copied, null⟩
  unfold Closed
  rw [copied]
  exact ⟨List.length_take_le _ _, null⟩

theorem OnArray.closed (same : OnArray s t) {row : Nat} (inside : row < logLines)
    (closed : Closed (t.logHistory row)) : Closed (s.logHistory row) := by
  rcases closed with ⟨short, null⟩
  unfold Closed
  rw [same.cString_eq inside]
  have narrow := Nat.lt_of_le_of_lt short (show 78 < logWidth by decide)
  exact ⟨short, (same.cell_eq row inside _ narrow).trans null⟩

/-- Every row in use is closed after a message, if every row was. -/
theorem closed_logPrint (le : s.logCount ≤ logLines) (text : 0 ∉ msg)
    (closed : ∀ row, row < s.logCount → Closed (s.logHistory row)) :
    ∀ row, row < (logPrint msg s).logCount → Closed ((logPrint msg s).logHistory row) := by
  intro row used
  rw [logPrint_logCount le] at used
  unfold logPrint
  by_cases free : s.logCount < logLines
  · rw [if_pos free]
    dsimp only
    by_cases last : row = s.logCount
    · rw [last, Function.update_self]
      exact closed_copyRow text _
    · rw [Function.update_of_ne last]
      exact closed row (by omega)
  · rw [if_neg free]
    dsimp only
    by_cases last : row = logLines - 1
    · rw [last, Function.update_self]
      exact closed_copyRow text _
    · have earlier : row < logLines - 1 := by
        unfold logLines at *
        omega
      rw [Function.update_of_ne last, if_pos earlier]
      refine closed (row + 1) ?_
      unfold logLines at *
      omega

end Print

/-! ## Whole runs -/

section Runs

variable {messages : List (List UInt8)} {s : Menu} {msg : List UInt8}

theorem KeepsLast.count_le (keeps : KeepsLast messages s) : s.logCount ≤ logLines := by
  rw [keeps.count_eq]
  exact Nat.min_le_left _ _

/-- A log that has just been reset shows nothing, whatever its rows hold. -/
theorem keepsLast_reset (reset : s.logCount = 0) : KeepsLast [] s where
  count_eq := reset
  shown_eq := by
    unfold shownLog
    rw [reset]
    rfl
  closed := by
    intro row used
    rw [reset] at used
    exact absurd used (Nat.not_lt_zero row)

/-- A message is remembered, and the oldest one is forgotten when there are eight. -/
theorem KeepsLast.print (keeps : KeepsLast messages s) (text : 0 ∉ msg) :
    ∃ s', checkedLogPrint msg s = some s' ∧ KeepsLast (messages ++ [msg]) s' := by
  have le := keeps.count_le
  rcases checkedLogPrint_agrees msg s with ⟨s', ran, same⟩
  have count : s'.logCount = min 8 (s.logCount + 1) :=
    same.count_eq.trans (logPrint_logCount le)
  have le' : (logPrint msg s).logCount ≤ logLines := by
    rw [logPrint_logCount le]
    exact Nat.min_le_left _ _
  refine ⟨s', ran, ?_, ?_, ?_⟩
  · rw [count, keeps.count_eq, List.length_append, List.length_singleton]
    omega
  · rw [same.shownLog_eq le', logPrint_shownLog le text, keeps.shown_eq, count]
    -- cutting the messages commutes with forgetting the oldest ones
    calc ((messages.rtake s.logCount).map (List.take 78) ++ [msg.take 78]).rtake 8
        = ((messages.rtake s.logCount ++ [msg]).map (List.take 78)).rtake 8 := by
          rw [List.map_append, List.map_singleton]
      _ = ((messages.rtake s.logCount ++ [msg]).rtake 8).map (List.take 78) := rtake_map _ _ _
      _ = ((messages ++ [msg]).rtake (min 8 (s.logCount + 1))).map (List.take 78) := by
          rw [rtake_concat_kept keeps.count_eq]
  · intro row used
    have used' : row < (logPrint msg s).logCount := same.count_eq ▸ used
    exact same.closed (Nat.lt_of_lt_of_le used' le') (closed_logPrint le text keeps.closed row used')

theorem executeCommand_clear (stats : Stats) (s : Menu) :
    executeCommand stats (ascii "clear") s = .returned { s with logCount := 0 } := rfl

/-- One call keeps the log in step with its reference, and writes inside its array. -/
theorem KeepsLast.call (keeps : KeepsLast messages s) (call : LogCall) :
    ∃ s', call.run s = some s' ∧ KeepsLast (call.messages messages) s' := by
  cases call with
  | print msg => exact keeps.print msg.property
  | clear stats =>
      refine ⟨{ s with logCount := 0 }, ?_, keepsLast_reset rfl⟩
      rw [LogCall.run, executeCommand_clear]
  | init =>
      have ready : 0 ∉ ascii "AuraOS Command Shell ready." := by decide
      have hint : 0 ∉ ascii "Type 'help' for commands, or 'dashboard' for btop view." := by decide
      have reset : KeepsLast []
          { s with
            cmdLen := 0, cmdBuf := Function.update s.cmdBuf 0 0, logCount := 0
            activeView := .menu } := keepsLast_reset rfl
      rcases reset.print ready with ⟨s1, ran1, keeps1⟩
      rcases keeps1.print hint with ⟨s2, ran2, keeps2⟩
      refine ⟨s2, ?_, keeps2⟩
      unfold LogCall.run
      simp only [storeAt_of_lt (show 0 < cmdMax by decide), Option.bind_eq_bind, Option.bind_some,
        ran1, ran2]

theorem KeepsLast.run (keeps : KeepsLast messages s) (calls : List LogCall) :
    ∃ s', runLogCalls calls s = some s' ∧ KeepsLast (calls.foldl LogCall.messages messages) s' := by
  induction calls generalizing messages s with
  | nil => exact ⟨s, rfl, keeps⟩
  | cons call calls inductionHypothesis =>
      rcases keeps.call call with ⟨next, ran, keepsNext⟩
      rcases inductionHypothesis keepsNext with ⟨last, finished, keepsLast⟩
      refine ⟨last, ?_, keepsLast⟩
      rw [runLogCalls, ran]
      exact finished

end Runs

/-- After every sequence of calls the log shows the last eight messages since it was reset, and
no call writes outside the array. -/
theorem log_keepsLast (cmdBuf : Nat → UInt8) (logHistory : Nat → Nat → UInt8)
    (calls : List LogCall) :
    ∃ s, runLogCalls calls (staticMenu cmdBuf logHistory) = some s ∧
      KeepsLast (sinceReset calls) s :=
  (keepsLast_reset rfl).run calls

end Shell
end AuraKernel
