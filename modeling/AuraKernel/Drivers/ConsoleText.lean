import AuraKernel.Drivers.Vga

namespace AuraKernel
namespace Drivers

open Machine

/-!
# The last lines of a text

The text that a program prints is laid out in rows of up to 80 cells, as many as
it needs.  The display shows the last 25 of them.  The console never sees the
rows that it has scrolled away, but what it has in its buffer is at any time
this part of the layout, and its two variables are the position in it where the
next character goes.
-/

/-! ## The layout -/

/-- A character with the colour it is printed in. -/
structure Ink where
  char : UInt8
  color : UInt8
deriving DecidableEq, Repr

/-- A row of the layout: the cells printed in it, and the colour when it was begun. -/
structure Row where
  cells : List UInt16
  fill : UInt8
deriving DecidableEq, Repr

/-- The rows of a text whose first row has been begun with `current`: a row ends at a newline
and behind its 80th character. -/
def rowsFrom (current : Row) : List Ink → List Row
  | [] => [current]
  | ink :: text =>
      if ink.char = newlineChar then current :: rowsFrom ⟨[], ink.color⟩ text
      else
        let longer : Row := { current with cells := current.cells ++ [vgaEntry ink.char ink.color] }
        if longer.cells.length = 80 then longer :: rowsFrom ⟨[], ink.color⟩ text
        else rowsFrom longer text

/-- The layout of a text on a screen that was cleared in a colour. -/
def layout (clear : UInt8) (text : List Ink) : List Row := rowsFrom ⟨[], clear⟩ text

/-- The number of the first row that is shown. -/
def firstShown (rows : List Row) : Nat := rows.length - 25

/-- A blank of row `r`: the first 25 rows are on the screen from the start, and each other one
is blank in the colour in which it was begun. -/
def blankOf (clear : UInt8) (r : Nat) (row : Row) : UInt16 :=
  vgaEntry spaceChar (if r < 25 then clear else row.fill)

/-- The cell in column `x` of row `r` of the layout. -/
def cellAt (clear : UInt8) (rows : List Row) (r x : Nat) : UInt16 :=
  match rows[r]? with
  | some row => (row.cells[x]?).getD (blankOf clear r row)
  | none => vgaEntry spaceChar clear

/-- The cell in column `x` of row `y` of the screen. -/
def shownCell (clear : UInt8) (rows : List Row) (y x : Nat) : UInt16 :=
  cellAt clear rows (firstShown rows + y) x

def cursorOf (rows : List Row) : Nat × Nat :=
  (rows.length - 1 - firstShown rows, (rows.getLast?.map fun row => row.cells.length).getD 0)

/-! ## Programs that print -/

/-- The calls that a program makes. -/
inductive Print
  | putc (c : UInt8)
  | puts (str : List UInt8)
  | setColor (fg bg : UInt8)
deriving DecidableEq, Repr

def Print.run : Print → Vga → Option Vga
  | putc c, v => vgaPutc c v
  | puts str, v => vgaPuts str v
  | setColor fg bg, v => some (vgaSetColor fg bg v)

def runPrints : List Print → Vga → Option Vga
  | [], v => some v
  | print :: prints, v => (print.run v).bind (runPrints prints)

/-- The text that is printed, each character with the colour in effect. -/
def inked : UInt8 → List Print → List Ink
  | _, [] => []
  | color, .putc c :: prints => ⟨c, color⟩ :: inked color prints
  | color, .puts str :: prints => str.map (Ink.mk · color) ++ inked color prints
  | _, .setColor fg bg :: prints => inked (vgaEntryColor fg bg) prints

/-! ## The screen -/

/-- The screen shows the last rows of `done` and `current`, and the cursor is behind
`current`. -/
structure Shows (clear : UInt8) (done : List Row) (current : Row) (v : Vga) : Prop where
  row_eq : v.row = done.length - (done.length + 1 - 25)
  col_eq : v.col = current.cells.length
  cell_eq : ∀ y < 25, ∀ x < 80, v.memory (y * 80 + x) = shownCell clear (done ++ [current]) y x

section Cells

variable {clear : UInt8} {rows done : List Row} {row : Row} {r x : Nat}

theorem cellAt_append (inside : r < rows.length) (more : List Row) :
    cellAt clear (rows ++ more) r x = cellAt clear rows r x := by
  unfold cellAt
  rw [List.getElem?_append_left inside]

theorem cellAt_last :
    cellAt clear (done ++ [row]) done.length x =
      (row.cells[x]?).getD (blankOf clear done.length row) := by
  unfold cellAt
  rw [List.getElem?_concat_length]

theorem cellAt_of_le (outside : rows.length ≤ r) :
    cellAt clear rows r x = vgaEntry spaceChar clear := by
  unfold cellAt
  rw [List.getElem?_eq_none outside]

theorem firstShown_concat : firstShown (done ++ [row]) = done.length + 1 - 25 := by
  unfold firstShown
  rw [List.length_append, List.length_singleton]

end Cells

/-! ## One character -/

namespace Shows

variable {clear : UInt8} {done : List Row} {current : Row} {v : Vga}

theorem cleared (v : Vga) :
    ∃ v', vgaClear v = some v' ∧ v'.color = v.color ∧ Shows v.color [] ⟨[], v.color⟩ v' := by
  refine ⟨_, vgaClear_eq v, rfl, rfl, rfl, fun y yLt x xLt => ?_⟩
  have blank : cellAt v.color [⟨[], v.color⟩] y x = vgaEntry spaceChar v.color := by
    rcases Nat.eq_zero_or_pos y with rfl | positive
    · rfl
    · exact cellAt_of_le positive
  dsimp only
  rw [patch_inside (by unfold vgaCells; omega), List.nil_append]
  unfold shownCell
  rw [show firstShown [(⟨[], v.color⟩ : Row)] + y = y from Nat.zero_add y]
  exact blank.symm

theorem print (shows : Shows clear done current v) (narrow : current.cells.length < 80)
    (entry : UInt16) :
    Shows clear done { current with cells := current.cells ++ [entry] }
      { v with memory := Function.update v.memory (v.row * 80 + v.col) entry, col := v.col + 1 } := by
  have rowEq := shows.row_eq
  have colEq := shows.col_eq
  refine ⟨rowEq, ?_, fun y yLt x xLt => ?_⟩
  · rw [List.length_append, List.length_singleton]
    exact congrArg (· + 1) colEq
  have old := shows.cell_eq y yLt x xLt
  unfold shownCell at old ⊢
  rw [firstShown_concat] at old ⊢
  dsimp only
  by_cases here : y = v.row
  · have last : done.length + 1 - 25 + y = done.length := by omega
    rw [last, cellAt_last] at old ⊢
    by_cases printed : x = v.col
    · rw [here, printed, Function.update_self, colEq, List.getElem?_concat_length,
        Option.getD_some]
    · rw [Function.update_of_ne (by omega), old]
      rcases Nat.lt_or_gt_of_ne printed with before | behind
      · rw [List.getElem?_append_left (by omega)]
        rfl
      · rw [List.getElem?_eq_none (by omega), List.getElem?_eq_none (by simp; omega)]
        rfl
  · rw [Function.update_of_ne (by omega), old]
    rcases Nat.lt_or_ge (done.length + 1 - 25 + y) done.length with above | below
    · rw [cellAt_append above, cellAt_append above]
    · rw [cellAt_of_le (by simp; omega), cellAt_of_le (by simp; omega)]

/-- A new row is begun: on the screen while there is room, and otherwise below it, with all
rows moved up. -/
theorem newline (shows : Shows clear done current v) :
    ∃ v', vgaNewline v = some v' ∧ v'.color = v.color ∧
      Shows clear (done ++ [current]) ⟨[], v.color⟩ v' := by
  have rowEq := shows.row_eq
  have length : (done ++ [current]).length = done.length + 1 := by simp
  unfold vgaNewline
  dsimp only
  by_cases full : v.row + 1 ≥ vgaHeight
  · rw [if_pos full, vgaScroll_eq]
    unfold vgaHeight at full
    refine ⟨_, rfl, rfl, ?_, rfl, fun y yLt x xLt => ?_⟩
    · rw [length]
      change 24 = _
      omega
    dsimp only
    unfold shownCell
    rw [firstShown_concat, length]
    rcases Nat.lt_or_ge y 24 with above | below
    · have moved := shows.cell_eq (y + 1) (by omega) x xLt
      unfold shownCell at moved
      rw [firstShown_concat] at moved
      rw [patch_outside (by omega), patch_inside (by omega),
        show y * 80 + x + vgaWidth = (y + 1) * 80 + x by unfold vgaWidth; omega, moved,
        show done.length + 1 - 25 + (y + 1) = done.length + 1 + 1 - 25 + y by omega]
      exact (cellAt_append (by rw [length]; omega) _).symm
    · have last : done.length + 1 + 1 - 25 + y = (done ++ [current]).length := by
        rw [length]
        omega
      rw [patch_inside (by unfold vgaCells; omega), last, cellAt_last]
      unfold blankOf
      rw [if_neg (by rw [length]; omega)]
      rfl
  · rw [if_neg full]
    unfold vgaHeight at full
    refine ⟨_, rfl, rfl, ?_, rfl, fun y yLt x xLt => ?_⟩
    · rw [length]
      change v.row + 1 = _
      omega
    have old := shows.cell_eq y yLt x xLt
    unfold shownCell at old ⊢
    rw [firstShown_concat] at old ⊢
    dsimp only
    rw [old, length, show done.length + 1 + 1 - 25 + y = y by omega,
      show done.length + 1 - 25 + y = y by omega]
    rcases Nat.lt_trichotomy y (done ++ [current]).length with above | same | below
    · rw [cellAt_append above]
    · rw [cellAt_of_le (Nat.le_of_eq same.symm), same, cellAt_last]
      unfold blankOf
      rw [if_pos (by omega)]
      rfl
    · rw [cellAt_of_le (by omega), cellAt_of_le (by simp; omega)]

theorem putc (shows : Shows clear done current v) (narrow : current.cells.length < 80)
    (c : UInt8) :
    ∃ v' done' current', vgaPutc c v = some v' ∧ v'.color = v.color ∧
      Shows clear done' current' v' ∧ current'.cells.length < 80 ∧
      ∀ text, done ++ rowsFrom current (⟨c, v.color⟩ :: text) = done' ++ rowsFrom current' text := by
  unfold vgaPutc
  by_cases breaks : c = newlineChar
  · rcases shows.newline with ⟨v', ran, color, shows'⟩
    rw [if_pos breaks]
    refine ⟨v', _, _, ran, color, shows', Nat.succ_pos 79, fun text => ?_⟩
    rw [rowsFrom, if_pos breaks, List.append_cons]
  · have bound : v.row * vgaWidth + v.col < vgaCells := by
      have rowEq := shows.row_eq
      have colEq := shows.col_eq
      unfold vgaWidth vgaCells
      omega
    have printed := shows.print narrow (vgaEntry c v.color)
    have length : (current.cells ++ [vgaEntry c v.color]).length = current.cells.length + 1 := by
      simp
    rw [if_neg breaks, storeAt_of_lt bound]
    simp only [Option.bind_eq_bind, Option.bind_some]
    by_cases wraps : v.col + 1 ≥ vgaWidth
    · rcases printed.newline with ⟨v', ran, color, shows'⟩
      rw [if_pos wraps]
      refine ⟨v', _, _, ran, color, shows', Nat.succ_pos 79, fun text => ?_⟩
      rw [rowsFrom, if_neg breaks]
      dsimp only
      rw [if_pos, List.append_cons]
      rw [length, ← shows.col_eq]
      have colEq := shows.col_eq
      unfold vgaWidth at wraps
      omega
    · rw [if_neg wraps]
      have colEq := shows.col_eq
      unfold vgaWidth at wraps
      refine ⟨_, done, _, rfl, rfl, printed, by rw [length]; omega, fun text => ?_⟩
      rw [rowsFrom, if_neg breaks]
      dsimp only
      rw [if_neg]
      rw [length]
      omega

end Shows

/-! ## Whole texts -/

section Texts

variable {clear : UInt8} {done : List Row} {current : Row} {v : Vga}

theorem Shows.puts (shows : Shows clear done current v) (narrow : current.cells.length < 80)
    (str : List UInt8) :
    ∃ v' done' current', vgaPuts str v = some v' ∧ v'.color = v.color ∧
      Shows clear done' current' v' ∧ current'.cells.length < 80 ∧
      ∀ text, done ++ rowsFrom current (str.map (Ink.mk · v.color) ++ text) =
        done' ++ rowsFrom current' text := by
  induction str generalizing done current v with
  | nil => exact ⟨v, done, current, rfl, rfl, shows, narrow, fun _ => rfl⟩
  | cons c str inductionHypothesis =>
      rcases shows.putc narrow c with ⟨next, done', current', ran, color, shows', narrow', rows⟩
      rcases inductionHypothesis shows' narrow' with
        ⟨last, done'', current'', ran', color', shows'', narrow'', rows'⟩
      refine ⟨last, done'', current'', ?_, color'.trans color, shows'', narrow'', fun text => ?_⟩
      · rw [vgaPuts, ran]
        exact ran'
      · rw [List.map_cons, List.cons_append, rows, ← color, rows']

theorem Shows.runPrints (shows : Shows clear done current v)
    (narrow : current.cells.length < 80) (prints : List Print) :
    ∃ v' done' current', Drivers.runPrints prints v = some v' ∧
      Shows clear done' current' v' ∧ current'.cells.length < 80 ∧
      done ++ rowsFrom current (inked v.color prints) = done' ++ [current'] := by
  induction prints generalizing done current v with
  | nil => exact ⟨v, done, current, rfl, shows, narrow, rfl⟩
  | cons print prints inductionHypothesis =>
      cases print with
      | putc c =>
          rcases shows.putc narrow c with ⟨next, done', current', ran, color, shows', narrow', rows⟩
          rcases inductionHypothesis shows' narrow' with
            ⟨last, done'', current'', ran', shows'', narrow'', rows'⟩
          refine ⟨last, done'', current'', ?_, shows'', narrow'', ?_⟩
          · rw [Drivers.runPrints, Print.run, ran]
            exact ran'
          · rw [inked, rows, ← color, rows']
      | puts str =>
          rcases shows.puts narrow str with
            ⟨next, done', current', ran, color, shows', narrow', rows⟩
          rcases inductionHypothesis shows' narrow' with
            ⟨last, done'', current'', ran', shows'', narrow'', rows'⟩
          refine ⟨last, done'', current'', ?_, shows'', narrow'', ?_⟩
          · rw [Drivers.runPrints, Print.run, ran]
            exact ran'
          · rw [inked, rows, ← color, rows']
      | setColor fg bg =>
          have shows' : Shows clear done current (vgaSetColor fg bg v) :=
            ⟨shows.row_eq, shows.col_eq, shows.cell_eq⟩
          exact inductionHypothesis shows' narrow

/-- After `vga_clear` and any calls, none of which leaves the buffer, the screen shows the last
25 rows of the text, and the cursor is behind it. -/
theorem vga_showsLastRows (v : Vga) (prints : List Print) :
    ∃ cleared final, vgaClear v = some cleared ∧ runPrints prints cleared = some final ∧
      final.row < 25 ∧ final.col < 80 ∧
      (∀ y < 25, ∀ x < 80, final.memory (y * 80 + x) =
        shownCell v.color (layout v.color (inked v.color prints)) y x) ∧
      (final.row, final.col) = cursorOf (layout v.color (inked v.color prints)) := by
  rcases Shows.cleared v with ⟨cleared, ran, color, shows⟩
  rcases shows.runPrints (Nat.succ_pos 79) prints with
    ⟨final, done, current, ran', shows', narrow, rows⟩
  rw [List.nil_append, color] at rows
  have rowEq := shows'.row_eq
  have colEq := shows'.col_eq
  unfold layout
  rw [rows]
  refine ⟨cleared, final, ran, ran', by omega, by omega, shows'.cell_eq, ?_⟩
  unfold cursorOf
  rw [firstShown_concat, List.length_append, List.length_singleton, Nat.add_sub_cancel,
    List.getLast?_concat, rowEq, colEq]
  rfl

end Texts

end Drivers
end AuraKernel
