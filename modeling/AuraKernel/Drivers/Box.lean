import AuraKernel.Drivers.Widgets

namespace AuraKernel
namespace Drivers

open Machine

/-!
# A box in its frame

The characters of a title end two columns before the right corner, but the blank
in front of them and the blank behind them are drawn without a look at the
width.  They are at the third and the fourth column of a box that has no room
for a title, where a box of up to four columns has its corner or has ended.
-/

/-- What a box changes, and what it shows behind the call. -/
structure Framed (x y w h : Int) (border : Border) (color : UInt8) (before after : Screen) :
    Prop where
  inside : ∀ cell, after cell ≠ before cell → ∃ column row, (x ≤ column ∧ column < x + w) ∧
    (y ≤ row ∧ row < y + h) ∧ OnScreen column row ∧ cell = cellIndex column row
  topLeft : CellShows after x y border.tl color
  topRight : CellShows after (x + w - 1) y border.tr color
  bottomLeft : CellShows after x (y + h - 1) border.bl color
  bottomRight : CellShows after (x + w - 1) (y + h - 1) border.br color
  left : ∀ row, y < row → row < y + h - 1 → CellShows after x row border.vLine color
  right : ∀ row, y < row → row < y + h - 1 → CellShows after (x + w - 1) row border.vLine color
  bottom : ∀ column, x < column → column < x + w - 1 →
    CellShows after column (y + h - 1) border.hLine color

/-- On every screen the box stays in its frame and shows its border. -/
def StaysInBox (x y w h : Int) (borderColor titleColor : UInt8) (title : Option (List UInt8))
    (double : Int) : Prop :=
  ∀ before, ∃ after, tuiDrawBox x y w h borderColor titleColor title double before = .ok after ∧
    Framed x y w h (borderOf double) borderColor before after

/-- There is no title, or the third and the fourth column are in front of the right corner as
far as they are on the screen. -/
def BlanksFit (x y w : Int) (title : Option (List UInt8)) : Prop :=
  title = none ∨
    ∀ column, column = x + 2 ∨ column = x + 3 → OnScreen column y → column < x + w - 1

/-- A box of five columns has room for the blanks. -/
theorem blanksFit_of_le {w : Int} (wide : 5 ≤ w) (x y : Int) (title : Option (List UInt8)) :
    BlanksFit x y w title :=
  Or.inr fun column blank _ => by omega

/-! ## The title -/

section Title

variable {x y w limit : Int} {color : UInt8} {strokes : List ((Int × Int) × UInt16)}
  {title : Option (List UInt8)}

/-- The characters are drawn from the first column on and in front of the limit. -/
theorem drawTitleChars_draws (y limit : Int) (color : UInt8) (chars : List UInt8) (titleX : Int) :
    ∃ last strokes, (∀ screen, drawTitleChars y limit color chars titleX screen =
        .ok (last, paint (shown screenCell strokes) screen)) ∧
      (titleX ≤ last ∧ last ≤ max titleX limit) ∧
      ∀ stroke ∈ strokes, stroke.1.2 = y ∧ titleX ≤ stroke.1.1 ∧ stroke.1.1 < limit := by
  induction chars generalizing titleX with
  | nil => exact ⟨titleX, [], fun _ => rfl, ⟨Int.le_refl _, by omega⟩, nofun⟩
  | cons c chars inductionHypothesis =>
      by_cases room : titleX < limit
      · rcases inductionHypothesis (titleX + 1) with ⟨last, strokes, ran, ends, within⟩
        refine ⟨last, [((titleX, y), vgaEntry c color)] ++ strokes, ?_, by omega, ?_⟩
        · intro screen
          rw [drawTitleChars, if_pos room, tuiPutcAt_draws titleX y c color screen, ok_bind, ran,
            shown_append, paint_append]
        · intro stroke listed
          rcases List.mem_append.mp listed with first | later
          · rw [List.mem_singleton.mp first]
            exact ⟨rfl, Int.le_refl _, room⟩
          · have inLater := within stroke later
            exact ⟨inLater.1, by omega, inLater.2.2⟩
      · refine ⟨titleX, [], fun screen => ?_, ⟨Int.le_refl _, by omega⟩, nofun⟩
        rw [drawTitleChars, if_neg room]
        rfl

/-- The two blanks of a title for which there is no room. -/
def blanks (x y : Int) (color : UInt8) : List ((Int × Int) × UInt16) :=
  [((x + 2, y), vgaEntry spaceChar color), ((x + 3, y), vgaEntry spaceChar color)]

/-- Where the strokes of the title are. -/
structure TitleStrokes (x y w : Int) (color : UInt8) (title : Option (List UInt8))
    (strokes : List ((Int × Int) × UInt16)) : Prop where
  behind : ∀ stroke ∈ strokes, stroke.1.2 = y ∧ x + 2 ≤ stroke.1.1
  wide : title = none ∨ 5 ≤ w → ∀ stroke ∈ strokes, stroke.1.1 < x + w - 1
  narrow : title ≠ none → w < 5 → strokes = blanks x y color

theorem drawTitle_draws (x y w : Int) (borderColor titleColor : UInt8)
    (title : Option (List UInt8)) :
    ∃ strokes, Draws (drawTitle x y w borderColor titleColor title) strokes ∧
      TitleStrokes x y w borderColor title strokes := by
  cases title with
  | none => exact ⟨[], fun _ => rfl, nofun, fun _ => nofun, fun some => absurd rfl some⟩
  | some chars =>
      rcases drawTitleChars_draws y (x + w - 2) titleColor chars (x + 3) with
        ⟨last, strokes, ran, ends, within⟩
      let first := [((x + 2, y), vgaEntry spaceChar borderColor)]
      let final := [((last, y), vgaEntry spaceChar borderColor)]
      have place : ∀ stroke ∈ first ++ (strokes ++ final), stroke.1.2 = y ∧ x + 2 ≤ stroke.1.1 ∧
          (stroke.1.1 = x + 2 ∨ stroke.1.1 < x + w - 2 ∨ stroke.1.1 = last) := by
        intro stroke listed
        rcases List.mem_append.mp listed with isFirst | listed
        · rw [List.mem_singleton.mp isFirst]
          exact ⟨rfl, Int.le_refl _, Or.inl rfl⟩
        rcases List.mem_append.mp listed with isChar | isFinal
        · have inChars := within stroke isChar
          exact ⟨inChars.1, by omega, Or.inr (Or.inl inChars.2.2)⟩
        · rw [List.mem_singleton.mp isFinal]
          exact ⟨rfl, by dsimp only; omega, Or.inr (Or.inr rfl)⟩
      refine ⟨first ++ (strokes ++ final), ?_, ?_, ?_, ?_⟩
      · apply (tuiPutcAt_draws (x + 2) y spaceChar borderColor).bind
        intro screen
        dsimp only
        rw [ran screen, ok_bind, shown_append, paint_append]
        exact tuiPutcAt_draws last y spaceChar borderColor _
      · intro stroke listed
        have isAt := place stroke listed
        exact ⟨isAt.1, isAt.2.1⟩
      · intro enough stroke listed
        have five : 5 ≤ w := enough.resolve_left nofun
        have isAt := place stroke listed
        omega
      · intro _ few
        have none : strokes = [] := by
          refine List.eq_nil_iff_forall_not_mem.mpr fun stroke listed => ?_
          have inChars := within stroke listed
          omega
        have atOnce : last = x + 3 := by omega
        rw [none, List.nil_append]
        unfold final
        rw [atOnce]
        rfl

/-- If the blanks fit, the screen shows no stroke of the title at the right corner or behind it. -/
theorem TitleStrokes.fit (strokesOf : TitleStrokes x y w color title strokes)
    (fits : BlanksFit x y w title) {stroke : (Int × Int) × UInt16} (listed : stroke ∈ strokes)
    (visible : OnScreen stroke.1.1 stroke.1.2) : stroke.1.1 < x + w - 1 := by
  by_cases enough : title = none ∨ 5 ≤ w
  · exact strokesOf.wide enough stroke listed
  · have titled : title ≠ none := fun none => enough (Or.inl none)
    have few : w < 5 := Int.not_le.mp fun five => enough (Or.inr five)
    have columns := fits.resolve_left titled
    rw [strokesOf.narrow titled few] at listed
    rcases List.mem_cons.mp listed with rfl | second
    · exact columns (x + 2) (Or.inl rfl) visible
    · rw [List.mem_singleton.mp second] at visible ⊢
      exact columns (x + 3) (Or.inr rfl) visible

end Title

/-! ## The box -/

section Box

variable {x y w h column row : Int} {border : Border} {color : UInt8}
  {title : List ((Int × Int) × UInt16)} {before : Screen}

/-- The strokes of the middle rows. -/
def middleStrokes (x y w h : Int) (border : Border) (color : UInt8) :
    List ((Int × Int) × UInt16) :=
  (Int.range 1 (h - 1)).flatMap fun j =>
    rowStrokes x (y + j) w (vgaEntry border.vLine color) (vgaEntry spaceChar 0x07)
      (vgaEntry border.vLine color)

/-- The strokes of the row at the top. -/
def topStrokes (x y w : Int) (border : Border) (color : UInt8) : List ((Int × Int) × UInt16) :=
  rowStrokes x y w (vgaEntry border.tl color) (vgaEntry border.hLine color)
    (vgaEntry border.tr color)

/-- The strokes of the row at the bottom. -/
def bottomStrokes (x y w h : Int) (border : Border) (color : UInt8) :
    List ((Int × Int) × UInt16) :=
  rowStrokes x (y + h - 1) w (vgaEntry border.bl color) (vgaEntry border.hLine color)
    (vgaEntry border.br color)

/-- The strokes of a box, with those of its title. -/
def boxStrokes (x y w h : Int) (border : Border) (color : UInt8)
    (title : List ((Int × Int) × UInt16)) : List ((Int × Int) × UInt16) :=
  topStrokes x y w border color ++ title ++ middleStrokes x y w h border color ++
    bottomStrokes x y w h border color

theorem tuiDrawBox_draws (wide : 2 ≤ w) (high : 2 ≤ h) (x y : Int) (borderColor titleColor : UInt8)
    (title : Option (List UInt8)) (double : Int) :
    ∃ strokes, TitleStrokes x y w borderColor title strokes ∧
      Draws (tuiDrawBox x y w h borderColor titleColor title double)
        (boxStrokes x y w h (borderOf double) borderColor strokes) := by
  rcases drawTitle_draws x y w borderColor titleColor title with ⟨strokes, draws, strokesOf⟩
  refine ⟨strokes, strokesOf, ?_⟩
  intro screen
  unfold tuiDrawBox boxStrokes
  rw [if_neg (by omega), List.append_assoc, List.append_assoc]
  exact (drawRow_draws x y w _ _ _ borderColor borderColor).bind (draws.bind
    ((Draws.forInt fun j => drawRow_draws x (y + j) w _ _ _ borderColor 0x07).bind
      (drawRow_draws x (y + h - 1) w _ _ _ borderColor borderColor))) screen

/-- Every stroke but those of the title is in the box. -/
theorem boxStrokes_within (wide : 2 ≤ w) (high : 2 ≤ h) {stroke : (Int × Int) × UInt16}
    (listed : stroke ∈ boxStrokes x y w h border color title) :
    stroke ∈ title ∨
      (x ≤ stroke.1.1 ∧ stroke.1.1 < x + w) ∧ (y ≤ stroke.1.2 ∧ stroke.1.2 < y + h) := by
  rcases List.mem_append.mp listed with listed | inBottom
  · rcases List.mem_append.mp listed with listed | inMiddle
    · rcases List.mem_append.mp listed with inTop | inTitle
      · have within := rowStrokes_within wide inTop
        exact Or.inr (by omega)
      · exact Or.inl inTitle
    · rcases List.mem_flatMap.mp inMiddle with ⟨j, isRow, inRow⟩
      have range := Int.mem_range_iff.mp isRow
      have within := rowStrokes_within wide inRow
      exact Or.inr (by omega)
  · have within := rowStrokes_within wide inBottom
    exact Or.inr (by omega)

theorem middleStrokes_spares (wide : 2 ≤ w) (outside : row ≤ y ∨ y + h - 1 ≤ row) :
    Spares (middleStrokes x y w h border color) (column, row) := by
  refine Spares.flatMap fun j isRow => rowStrokes_spares wide ?_
  have range := Int.mem_range_iff.mp isRow
  omega

/-- The sides of the middle rows are settled by the rows they are in. -/
theorem middleStrokes_settles (wide : 2 ≤ w) (inside : y < row ∧ row < y + h - 1)
    (side : column = x ∨ column = x + w - 1) :
    Settles (middleStrokes x y w h border color) (column, row) (vgaEntry border.vLine color) := by
  obtain ⟨j, rfl⟩ : ∃ j, row = y + j := ⟨row - y, by omega⟩
  have isRow : j ∈ Int.range 1 (h - 1) := Int.mem_range_iff.mpr (by omega)
  apply Settles.flatMap isRow
  · rcases side with rfl | rfl
    · exact rowStrokes_left wide
    · exact rowStrokes_right wide
  · exact fun i _ other => rowStrokes_spares wide (by omega)

/-- Above the bottom row the rows decide what is shown. -/
theorem shows_middle (wide : 2 ≤ w) (inside : y < row ∧ row < y + h - 1)
    (side : column = x ∨ column = x + w - 1) :
    CellShows (paint (shown screenCell (boxStrokes x y w h border color title)) before) column row
      border.vLine color := by
  intro visible
  have spares : Spares (bottomStrokes x y w h border color) (column, row) :=
    rowStrokes_spares wide (by omega)
  rw [paint_screen visible]
  unfold boxStrokes
  rw [paint_append_of_spares spares]
  exact paint_append_of_settles (middleStrokes_settles wide inside side)

theorem shows_bottom {c : UInt8}
    (settles : Settles (bottomStrokes x y w h border color) (column, row) (vgaEntry c color)) :
    CellShows (paint (shown screenCell (boxStrokes x y w h border color title)) before) column row
      c color := by
  intro visible
  rw [paint_screen visible]
  exact paint_append_of_settles settles

/-- The rows below the top row leave it as the title has left it. -/
theorem paint_top (wide : 2 ≤ w) (high : 2 ≤ h) (visible : OnScreen column y) :
    paint (shown screenCell (boxStrokes x y w h border color title)) before (cellIndex column y) =
      paint (topStrokes x y w border color ++ title) (fun _ => before (cellIndex column y))
        (column, y) := by
  have spares : Spares (bottomStrokes x y w h border color) (column, y) :=
    rowStrokes_spares wide (by omega)
  rw [paint_screen visible]
  unfold boxStrokes
  rw [paint_append_of_spares spares,
    paint_append_of_spares (middleStrokes_spares wide (Or.inl (Int.le_refl y)))]

/-- A corner at the top that the title spares. -/
theorem shows_top (wide : 2 ≤ w) (high : 2 ≤ h) {c : UInt8}
    (settles : Settles (topStrokes x y w border color) (column, y) (vgaEntry c color))
    (spares : OnScreen column y → Spares title (column, y)) :
    CellShows (paint (shown screenCell (boxStrokes x y w h border color title)) before) column y
      c color := by
  intro visible
  rw [paint_top wide high visible, paint_append_of_spares (spares visible),
    paint_of_settles settles]

end Box

section Main

variable {x y w h : Int} {color : UInt8} {title : Option (List UInt8)}
  {strokes : List ((Int × Int) × UInt16)}

/-- If the blanks fit, the strokes of a box stay in its frame and leave its border. -/
theorem framed_of_fit (wide : 2 ≤ w) (high : 2 ≤ h) (border : Border)
    (strokesOf : TitleStrokes x y w color title strokes) (fits : BlanksFit x y w title)
    (before : Screen) :
    Framed x y w h border color before
      (paint (shown screenCell (boxStrokes x y w h border color strokes)) before) where
  inside cell changed := by
    rcases shown_of_paint_ne changed with ⟨stroke, listed, seen⟩
    rcases screenCell_eq_some_iff.mp seen with ⟨visible, index⟩
    rcases boxStrokes_within wide high listed with inTitle | ⟨columns, rows⟩
    · have behind := strokesOf.behind stroke inTitle
      have before := strokesOf.fit fits inTitle visible
      exact ⟨stroke.1.1, stroke.1.2, by omega, by omega, visible, index.symm⟩
    · exact ⟨stroke.1.1, stroke.1.2, columns, rows, visible, index.symm⟩
  topLeft := by
    refine shows_top wide high (rowStrokes_left wide) fun _ stroke listed met => ?_
    have behind := (strokesOf.behind stroke listed).2
    rw [met] at behind
    dsimp only at behind
    omega
  topRight := by
    refine shows_top wide high (rowStrokes_right wide) fun visible stroke listed met => ?_
    have before := strokesOf.fit fits listed (by rw [met]; exact visible)
    rw [met] at before
    exact Int.lt_irrefl _ before
  bottomLeft := shows_bottom (rowStrokes_left wide)
  bottomRight := shows_bottom (rowStrokes_right wide)
  left row below above := shows_middle wide ⟨below, above⟩ (Or.inl rfl)
  right row below above := shows_middle wide ⟨below, above⟩ (Or.inr rfl)
  bottom column behind before := shows_bottom (rowStrokes_line ⟨behind, before⟩)

theorem tr_ne_space (double : Int) : (borderOf double).tr ≠ spaceChar := by
  unfold borderOf
  by_cases nonzero : double ≠ 0
  · rw [if_pos nonzero]
    decide
  · rw [if_neg nonzero]
    decide

/-- Where there is no room for the title, its blanks are what is shown at the top. -/
theorem blank_shown (wide : 2 ≤ w) (high : 2 ≤ h) (border : Border) {column : Int}
    (blank : column = x + 2 ∨ column = x + 3) (visible : OnScreen column y) (before : Screen) :
    paint (shown screenCell (boxStrokes x y w h border color (blanks x y color))) before
      (cellIndex column y) = vgaEntry spaceChar color := by
  rw [paint_top wide high visible]
  apply paint_append_of_settles
  constructor
  · rcases blank with rfl | rfl
    · exact List.mem_cons_self
    · exact List.mem_cons_of_mem _ List.mem_cons_self
  · intro stroke listed _
    rcases List.mem_cons.mp listed with rfl | second
    · rfl
    · rw [List.mem_singleton.mp second]

/-- For every position, all colours, both borders and every title, a box of at least two columns
and rows stays in its frame and shows its border if and only if the blanks fit. -/
theorem tuiDrawBox_framed_iff (x y : Int) {w h : Int} (wide : 2 ≤ w) (high : 2 ≤ h)
    (borderColor titleColor : UInt8) (title : Option (List UInt8)) (double : Int) :
    StaysInBox x y w h borderColor titleColor title double ↔ BlanksFit x y w title := by
  rcases tuiDrawBox_draws wide high x y borderColor titleColor title double with
    ⟨strokes, strokesOf, draws⟩
  constructor
  · intro stays
    by_cases titled : title = none
    · exact Or.inl titled
    refine Or.inr fun column blank visible => Int.not_le.mp fun reaches => ?_
    -- Before the call every cell shows the corner, so that a blank is a change
    let before : Screen := fun _ => vgaEntry (borderOf double).tr borderColor
    rcases stays before with ⟨after, ran, framed⟩
    have drawn := Except.ok.inj ((draws before).symm.trans ran)
    have shows : after (cellIndex column y) = vgaEntry spaceChar borderColor := by
      rw [← drawn, strokesOf.narrow titled (by omega)]
      exact blank_shown wide high _ blank visible before
    have differs : vgaEntry spaceChar borderColor ≠ vgaEntry (borderOf double).tr borderColor :=
      fun same => tr_ne_space double (vgaEntry_inj same).symm
    by_cases corner : column = x + w - 1
    · rw [corner] at visible shows
      exact differs (shows.symm.trans (framed.topRight visible))
    · have changed : after (cellIndex column y) ≠ before (cellIndex column y) := by
        rw [shows]
        exact differs
      rcases framed.inside _ changed with ⟨column', row', columns, _, visible', same⟩
      have places : (column, y) = (column', row') :=
        screenCell_apart (if_pos visible) (screenCell_eq_some_iff.mpr ⟨visible', same.symm⟩)
      have same := congrArg Prod.fst places
      dsimp only at same
      omega
  · intro fits before
    exact ⟨_, draws before, framed_of_fit wide high _ strokesOf fits before⟩

/-- The box around the tasks on the dashboard -/
theorem tuiDrawBox_framed_iff_tasks :
    StaysInBox 0 9 80 14 14 15 (some [32, 116, 97, 115, 107, 115, 32]) 14 :=
  (tuiDrawBox_framed_iff 0 9 (by decide) (by decide) 14 15 _ 14).mpr
    (blanksFit_of_le (by decide) 0 9 _)

/-- The corner of a box of four columns and two rows is overwritten. -/
theorem not_staysInBox : ¬ StaysInBox 0 0 4 2 7 15 (some [65]) 0 := by
  intro stays
  rcases stays (fun _ => 0) with ⟨after, ran, framed⟩
  have corner := framed.topRight (by decide)
  have drawn : (tuiDrawBox 0 0 4 2 7 15 (some [65]) 0 (fun _ => 0)).map (fun after => after 3) =
      .ok (vgaEntry spaceChar 7) := by
    decide +kernel
  rw [ran] at drawn
  exact absurd ((Except.ok.inj drawn).symm.trans corner) (by decide)

end Main

end Drivers
end AuraKernel
