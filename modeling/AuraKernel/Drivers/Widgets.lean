import AuraKernel.Drivers.Tui
import AuraKernel.Machine.Painting
import Mathlib.Data.Int.Range

namespace AuraKernel
namespace Drivers

open Machine

/-!
# Boxes and bars

The widgets of the text interface draw everything with `tui_putc_at`, which does
nothing outside the screen.  The strokes of a widget are therefore given at
columns and rows without bounds, and the screen is a window on them.
-/

/-- The screen, a cell for each index. -/
abbrev Screen : Type := Nat → UInt16

/-- `for (int i = first; i < bound; i++)` -/
def forInt (first bound : Int) (body : Int → Screen → Except Fault Screen) (screen : Screen) :
    Except Fault Screen :=
  (Int.range first bound).foldlM (fun screen i => body i screen) screen

/-! ## Boxes -/

/-- The characters of a border: the four corners, and the two lines. -/
structure Border where
  tl : UInt8
  tr : UInt8
  bl : UInt8
  br : UInt8
  hLine : UInt8
  vLine : UInt8
deriving DecidableEq, Repr

def singleBorder : Border where
  tl := 0xDA
  tr := 0xBF
  bl := 0xC0
  br := 0xD9
  hLine := 0xC4
  vLine := 0xB3

def doubleBorder : Border where
  tl := 0xC9
  tr := 0xBB
  bl := 0xC8
  br := 0xBC
  hLine := 0xCD
  vLine := 0xBA

/-- The border for the argument `double_border` -/
def borderOf (double : Int) : Border := if double ≠ 0 then doubleBorder else singleBorder

/-- The three kinds of rows that `tui_draw_box` draws: a character at either end, and one on all
columns between them. -/
def drawRow (x y w : Int) (left line right color lineColor : UInt8) (screen : Screen) :
    Except Fault Screen := do
  let screen ← tuiPutcAt x y left color screen
  let screen ← forInt 1 (w - 1) (fun i => tuiPutcAt (x + i) y line lineColor) screen
  tuiPutcAt (x + w - 1) y right color screen

/-- The loop over the characters of the title, from column `title_x` on: the last `title_x`, and
the screen. -/
def drawTitleChars (y limit : Int) (color : UInt8) :
    List UInt8 → Int → Screen → Except Fault (Int × Screen)
  | [], titleX, screen => .ok (titleX, screen)
  | c :: title, titleX, screen =>
      if titleX < limit then do
        let screen ← tuiPutcAt titleX y c color screen
        drawTitleChars y limit color title (titleX + 1) screen
      else .ok (titleX, screen)

/-- `if (title)` -/
def drawTitle (x y w : Int) (borderColor titleColor : UInt8) :
    Option (List UInt8) → Screen → Except Fault Screen
  | none, screen => .ok screen
  | some title, screen => do
      let screen ← tuiPutcAt (x + 2) y spaceChar borderColor screen
      let (titleX, screen) ← drawTitleChars y (x + w - 2) titleColor title (x + 3) screen
      tuiPutcAt titleX y spaceChar borderColor screen

/-- `tui_draw_box`, with a title or NULL -/
def tuiDrawBox (x y w h : Int) (borderColor titleColor : UInt8) (title : Option (List UInt8))
    (double : Int) (screen : Screen) : Except Fault Screen :=
  if w < 2 ∨ h < 2 then .ok screen
  else do
    let border := borderOf double
    -- Top border
    let screen ← drawRow x y w border.tl border.hLine border.tr borderColor borderColor screen
    let screen ← drawTitle x y w borderColor titleColor title screen
    -- Middle rows
    let screen ← forInt 1 (h - 1) (fun j =>
      drawRow x (y + j) w border.vLine spaceChar border.vLine borderColor 0x07) screen
    -- Bottom border
    drawRow x (y + h - 1) w border.bl border.hLine border.br borderColor borderColor screen

/-! ## Bars -/

def barFull : UInt8 := 219

def barLight : UInt8 := 176

/-- `filled` -/
def barFilled (width : Int) (val max : UInt32) : UInt32 :=
  let filled := (val * UInt32.ofInt width) / max
  if filled > UInt32.ofInt width then UInt32.ofInt width else filled

def tuiDrawBar (x y width : Int) (val max : UInt32) (fgFill fgEmpty : UInt8) (screen : Screen) :
    Except Fault Screen :=
  if width ≤ 0 ∨ max = 0 then .ok screen
  else
    let filled := barFilled width val max
    forInt 0 width (fun i =>
      if i < filled.toBitVec.toInt then tuiPutcAt (x + i) y barFull fgFill
      else tuiPutcAt (x + i) y barLight fgEmpty) screen

/-! ## The screen as a window -/

/-- A column and a row of the screen. -/
def OnScreen (column row : Int) : Prop :=
  0 ≤ column ∧ column < vgaWidth ∧ 0 ≤ row ∧ row < vgaHeight

instance (column row : Int) : Decidable (OnScreen column row) :=
  inferInstanceAs (Decidable (0 ≤ column ∧ column < vgaWidth ∧ 0 ≤ row ∧ row < vgaHeight))

/-- The index of a column and a row. -/
def cellIndex (column row : Int) : Nat := (row * vgaWidth + column).toNat

/-- The index that a column and a row have on the screen. -/
def screenCell (place : Int × Int) : Option Nat :=
  if OnScreen place.1 place.2 then some (cellIndex place.1 place.2) else none

/-- If the column and the row are on the screen, their cell shows the character. -/
def CellShows (screen : Screen) (column row : Int) (c color : UInt8) : Prop :=
  OnScreen column row → screen (cellIndex column row) = vgaEntry c color

/-- The program leaves on the screen what the strokes leave on the plane. -/
def Draws (draw : Screen → Except Fault Screen) (strokes : List ((Int × Int) × UInt16)) : Prop :=
  Paints draw (shown screenCell strokes)

section Window

variable {column row : Int} {cell : Nat} {screen : Screen}
  {strokes later : List ((Int × Int) × UInt16)} {draw next : Screen → Except Fault Screen}

/-- The character is the low byte of a cell. -/
theorem vgaEntry_inj {c other color otherColor : UInt8}
    (same : vgaEntry c color = vgaEntry other otherColor) : c = other := by
  have low : ∀ uc color : UInt8, (vgaEntry uc color).toUInt8 = uc := by
    intro uc color
    apply UInt8.toBitVec_inj.mp
    simp [vgaEntry]
  rw [← low c color, same, low other otherColor]

theorem cellIndex_lt (visible : OnScreen column row) : cellIndex column row < vgaCells := by
  unfold OnScreen vgaWidth vgaHeight at visible
  unfold cellIndex vgaCells vgaWidth
  omega

theorem screenCell_eq_some_iff {place : Int × Int} :
    screenCell place = some cell ↔
      OnScreen place.1 place.2 ∧ cellIndex place.1 place.2 = cell := by
  unfold screenCell
  by_cases visible : OnScreen place.1 place.2
  · rw [if_pos visible, Option.some_inj, and_iff_right visible]
  · rw [if_neg visible]
    exact iff_of_false nofun fun both => visible both.1

theorem screenCell_apart {place other : Int × Int} (first : screenCell place = some cell)
    (second : screenCell other = some cell) : place = other := by
  have one := screenCell_eq_some_iff.mp first
  have two := screenCell_eq_some_iff.mp second
  unfold OnScreen cellIndex vgaWidth vgaHeight at one two
  exact Prod.ext (by omega) (by omega)

/-- A cell of the screen is painted as the place it shows. -/
theorem paint_screen (visible : OnScreen column row) :
    paint (shown screenCell strokes) screen (cellIndex column row) =
      paint strokes (fun _ => screen (cellIndex column row)) (column, row) :=
  paint_shown screenCell_apart (if_pos visible)

theorem shows_of_settles {c color : UInt8}
    (settles : Settles strokes (column, row) (vgaEntry c color)) :
    CellShows (paint (shown screenCell strokes) screen) column row c color := by
  intro visible
  rw [paint_screen visible]
  exact paint_of_settles settles

theorem tuiPutcAt_draws (x y : Int) (c color : UInt8) :
    Draws (tuiPutcAt x y c color) [((x, y), vgaEntry c color)] := by
  intro screen
  unfold tuiPutcAt shown
  by_cases outside : x < 0 ∨ x ≥ vgaWidth ∨ y < 0 ∨ y ≥ vgaHeight
  · have hidden : screenCell (x, y) = none := by
      refine if_neg fun visible => ?_
      unfold OnScreen at visible
      omega
    rw [if_pos outside, List.filterMap_cons_none (by rw [hidden]; rfl), List.filterMap_nil]
    rfl
  · have visible : OnScreen x y := by
      unfold OnScreen
      omega
    have seen : screenCell (x, y) = some (cellIndex x y) := if_pos visible
    have inside : (y * vgaWidth + x).toNat < vgaCells := cellIndex_lt visible
    rw [if_neg outside, List.filterMap_cons_some (by rw [seen]; rfl), List.filterMap_nil,
      storeAt_of_lt inside]
    rfl

theorem Draws.bind (first : Draws draw strokes) (second : Draws next later) :
    Draws (fun screen => draw screen >>= next) (strokes ++ later) := by
  unfold Draws
  rw [shown_append]
  exact Paints.bind first second

theorem Draws.forInt {first bound : Int} {body : Int → Screen → Except Fault Screen}
    {round : Int → List ((Int × Int) × UInt16)} (draws : ∀ i, Draws (body i) (round i)) :
    Draws (forInt first bound body) ((Int.range first bound).flatMap round) := by
  unfold Draws
  rw [shown_flatMap]
  exact Paints.foldlM fun i _ => draws i

end Window

/-! ## Rows -/

section Rows

variable {x y w column row : Int} {left line right : UInt16}

def rowStrokes (x y w : Int) (left line right : UInt16) : List ((Int × Int) × UInt16) :=
  [((x, y), left)] ++
    ((Int.range 1 (w - 1)).flatMap (fun i => [((x + i, y), line)]) ++ [((x + w - 1, y), right)])

theorem drawRow_draws (x y w : Int) (left line right color lineColor : UInt8) :
    Draws (drawRow x y w left line right color lineColor)
      (rowStrokes x y w (vgaEntry left color) (vgaEntry line lineColor) (vgaEntry right color)) :=
  (tuiPutcAt_draws x y left color).bind
    ((Draws.forInt fun i => tuiPutcAt_draws (x + i) y line lineColor).bind
      (tuiPutcAt_draws (x + w - 1) y right color))

theorem mem_rowStrokes {stroke : (Int × Int) × UInt16} :
    stroke ∈ rowStrokes x y w left line right ↔
      stroke = ((x, y), left) ∨ (∃ i, (1 ≤ i ∧ i < w - 1) ∧ stroke = ((x + i, y), line)) ∨
        stroke = ((x + w - 1, y), right) := by
  unfold rowStrokes
  simp only [List.mem_append, List.mem_singleton, List.mem_flatMap, Int.mem_range_iff]

/-- The strokes of a row of at least two columns are in the row. -/
theorem rowStrokes_within (wide : 2 ≤ w) {stroke : (Int × Int) × UInt16}
    (listed : stroke ∈ rowStrokes x y w left line right) :
    stroke.1.2 = y ∧ x ≤ stroke.1.1 ∧ stroke.1.1 < x + w := by
  rcases mem_rowStrokes.mp listed with rfl | ⟨i, inside, rfl⟩ | rfl
  · exact ⟨rfl, Int.le_refl x, by dsimp only; omega⟩
  · exact ⟨rfl, by dsimp only; omega, by dsimp only; omega⟩
  · exact ⟨rfl, by dsimp only; omega, by dsimp only; omega⟩

theorem rowStrokes_spares (wide : 2 ≤ w) (other : row ≠ y) :
    Spares (rowStrokes x y w left line right) (column, row) := by
  intro stroke listed met
  have within := rowStrokes_within wide listed
  rw [met] at within
  exact other within.1

/-- What a row shows in a column. -/
def rowCell (x w : Int) (left line right : UInt16) (column : Int) : UInt16 :=
  if column = x then left else if column = x + w - 1 then right else line

/-- A row draws each of its columns, and no column with two values. -/
theorem rowStrokes_settles (wide : 2 ≤ w) (inside : x ≤ column ∧ column < x + w) :
    Settles (rowStrokes x y w left line right) (column, y)
      (rowCell x w left line right column) := by
  have drawn : ∀ stroke ∈ rowStrokes x y w left line right,
      stroke.2 = rowCell x w left line right stroke.1.1 := by
    intro stroke listed
    unfold rowCell
    rcases mem_rowStrokes.mp listed with rfl | ⟨i, between, rfl⟩ | rfl
    · rw [if_pos rfl]
    · rw [if_neg (by dsimp only; omega), if_neg (by dsimp only; omega)]
    · rw [if_neg (by dsimp only; omega), if_pos rfl]
  constructor
  · apply mem_rowStrokes.mpr
    unfold rowCell
    by_cases first : column = x
    · rw [first, if_pos rfl]
      exact Or.inl rfl
    · by_cases last : column = x + w - 1
      · rw [if_neg first, if_pos last, last]
        exact Or.inr (Or.inr rfl)
      · refine Or.inr (Or.inl ⟨column - x, by omega, ?_⟩)
        rw [if_neg first, if_neg last, add_sub_cancel]
  · intro stroke listed met
    rw [drawn stroke listed, met]

theorem rowStrokes_left (wide : 2 ≤ w) :
    Settles (rowStrokes x y w left line right) (x, y) left := by
  have settles := @rowStrokes_settles x y w x left line right wide (by omega)
  unfold rowCell at settles
  rw [if_pos rfl] at settles
  exact settles

theorem rowStrokes_right (wide : 2 ≤ w) :
    Settles (rowStrokes x y w left line right) (x + w - 1, y) right := by
  have settles := @rowStrokes_settles x y w (x + w - 1) left line right wide (by omega)
  unfold rowCell at settles
  rw [if_neg (by omega), if_pos rfl] at settles
  exact settles

theorem rowStrokes_line (inside : x < column ∧ column < x + w - 1) :
    Settles (rowStrokes x y w left line right) (column, y) line := by
  have settles := @rowStrokes_settles x y w column left line right (by omega) (by omega)
  unfold rowCell at settles
  rw [if_neg (by omega), if_neg (by omega)] at settles
  exact settles

end Rows

end Drivers
end AuraKernel
