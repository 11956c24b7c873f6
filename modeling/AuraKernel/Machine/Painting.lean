import Mathlib.Data.List.Flatten
import Mathlib.Data.List.Induction
import Mathlib.Logic.Function.Basic

namespace AuraKernel
namespace Machine

/-!
# Strokes on a canvas

A program that only stores into an array leaves at each index the value it has
stored there last.  Its stores are kept here as a list of strokes.  A place
that no stroke meets is spared; a place is settled when some strokes meet it and
all of them leave the same value.  The strokes of a loop are those of its rounds,
and a window drops the strokes that it does not show.
-/

section Strokes

variable {ι α β : Type*} {strokes : List (ι × α)} {place : ι} {value : α}

/-- No stroke meets the place. -/
def Spares (strokes : List (ι × α)) (place : ι) : Prop := ∀ stroke ∈ strokes, stroke.1 ≠ place

/-- Some strokes meet the place, and all of them leave the value. -/
structure Settles (strokes : List (ι × α)) (place : ι) (value : α) : Prop where
  some : (place, value) ∈ strokes
  only : ∀ stroke ∈ strokes, stroke.1 = place → stroke.2 = value

theorem Settles.single : Settles [(place, value)] place value := by
  constructor
  · exact List.mem_cons_self
  · intro stroke listed _
    rw [List.mem_singleton.mp listed]

variable {rounds : List β} {round : β → List (ι × α)}

theorem Spares.flatMap (spares : ∀ i ∈ rounds, Spares (round i) place) :
    Spares (rounds.flatMap round) place := by
  intro stroke listed
  rcases List.mem_flatMap.mp listed with ⟨i, isRound, inRound⟩
  exact spares i isRound stroke inRound

/-- A place is settled by a loop when one round settles it and the others spare it. -/
theorem Settles.flatMap {i : β} (isRound : i ∈ rounds) (settles : Settles (round i) place value)
    (spares : ∀ j ∈ rounds, j ≠ i → Spares (round j) place) :
    Settles (rounds.flatMap round) place value := by
  constructor
  · exact List.mem_flatMap.mpr ⟨i, isRound, settles.some⟩
  · intro stroke listed met
    rcases List.mem_flatMap.mp listed with ⟨j, isOther, inOther⟩
    by_cases same : j = i
    · rw [same] at inOther
      exact settles.only stroke inOther met
    · exact absurd met (spares j isOther same stroke inOther)

end Strokes

/-! ## What strokes leave -/

section Paint

variable {ι α : Type*} [DecidableEq ι] {earlier later strokes : List (ι × α)} {canvas : ι → α}
  {place : ι} {value : α}

/-- The canvas behind the strokes, the first of which comes first. -/
def paint (strokes : List (ι × α)) (canvas : ι → α) : ι → α :=
  strokes.foldl (fun canvas stroke => Function.update canvas stroke.1 stroke.2) canvas

theorem paint_append : paint (earlier ++ later) canvas = paint later (paint earlier canvas) :=
  List.foldl_append

theorem paint_of_spares (spares : Spares strokes place) :
    paint strokes canvas place = canvas place := by
  induction strokes generalizing canvas with
  | nil => rfl
  | cons stroke strokes inductionHypothesis =>
      have elsewhere : place ≠ stroke.1 := (spares stroke List.mem_cons_self).symm
      refine Eq.trans ?_ (Function.update_of_ne elsewhere stroke.2 canvas)
      exact inductionHypothesis fun other listed => spares other (List.mem_cons_of_mem _ listed)

theorem paint_of_settles (settles : Settles strokes place value) :
    paint strokes canvas place = value := by
  induction strokes using List.reverseRecOn with
  | nil => exact absurd settles.some List.not_mem_nil
  | append_singleton strokes stroke inductionHypothesis =>
      have final : paint (strokes ++ [stroke]) canvas place =
          Function.update (paint strokes canvas) stroke.1 stroke.2 place := by
        rw [paint_append]
        rfl
      rw [final]
      by_cases met : stroke.1 = place
      · rw [met, Function.update_self]
        exact settles.only stroke (List.mem_append_right _ List.mem_cons_self) met
      · rw [Function.update_of_ne (Ne.symm met)]
        apply inductionHypothesis
        constructor
        · rcases List.mem_append.mp settles.some with listed | last
          · exact listed
          · exact absurd (congrArg Prod.fst (List.mem_singleton.mp last)).symm met
        · exact fun other listed => settles.only other (List.mem_append_left _ listed)

theorem paint_append_of_spares (spares : Spares later place) :
    paint (earlier ++ later) canvas place = paint earlier canvas place := by
  rw [paint_append]
  exact paint_of_spares spares

theorem paint_append_of_settles (settles : Settles later place value) :
    paint (earlier ++ later) canvas place = value := by
  rw [paint_append]
  exact paint_of_settles settles

end Paint

/-! ## Windows -/

section Window

variable {ι κ α β : Type*} {window : ι → Option κ} {earlier later strokes : List (ι × α)}

/-- The strokes that the window shows, at the places where it shows them. -/
def shown (window : ι → Option κ) (strokes : List (ι × α)) : List (κ × α) :=
  strokes.filterMap fun stroke => (window stroke.1).map fun k => (k, stroke.2)

theorem shown_append :
    shown window (earlier ++ later) = shown window earlier ++ shown window later :=
  List.filterMap_append

theorem shown_flatMap {rounds : List β} {round : β → List (ι × α)} :
    shown window (rounds.flatMap round) = rounds.flatMap fun i => shown window (round i) :=
  List.filterMap_flatMap

theorem mem_shown {stroke : κ × α} (listed : stroke ∈ shown window strokes) :
    ∃ origin ∈ strokes, window origin.1 = some stroke.1 ∧ origin.2 = stroke.2 := by
  rcases List.mem_filterMap.mp listed with ⟨origin, inStrokes, mapped⟩
  rcases Option.map_eq_some_iff.mp mapped with ⟨k, seen, rfl⟩
  exact ⟨origin, inStrokes, seen, rfl⟩

variable [DecidableEq κ] {k : κ} {canvas : κ → α}

/-- A change is where the window shows a stroke. -/
theorem shown_of_paint_ne (changed : paint (shown window strokes) canvas k ≠ canvas k) :
    ∃ origin ∈ strokes, window origin.1 = some k := by
  by_contra none
  refine changed (paint_of_spares fun stroke listed same => ?_)
  rcases mem_shown listed with ⟨origin, inStrokes, seen, _⟩
  rw [same] at seen
  exact none ⟨origin, inStrokes, seen⟩

variable [DecidableEq ι] {place : ι}

/-- A window that shows no two places at one shows of a place what the strokes leave there. -/
theorem paint_shown (apart : ∀ {i j k}, window i = some k → window j = some k → i = j)
    (seen : window place = some k) :
    paint (shown window strokes) canvas k = paint strokes (fun _ => canvas k) place := by
  induction strokes using List.reverseRecOn with
  | nil => rfl
  | append_singleton strokes stroke inductionHypothesis =>
      rw [shown_append]
      by_cases met : stroke.1 = place
      · have one : shown window [stroke] = [(k, stroke.2)] := by
          unfold shown
          rw [List.filterMap_cons_some (by rw [met, seen]; rfl), List.filterMap_nil]
        have last : stroke = (place, stroke.2) := Prod.ext met rfl
        rw [one, paint_append_of_settles Settles.single, last,
          paint_append_of_settles Settles.single]
      · have missed : Spares (shown window [stroke]) k := by
          intro other listed same
          rcases mem_shown listed with ⟨origin, isStroke, shows, _⟩
          rw [List.mem_singleton.mp isStroke, same] at shows
          exact met (apart shows seen)
        have elsewhere : Spares [stroke] place := by
          intro other listed
          rw [List.mem_singleton.mp listed]
          exact met
        rw [paint_append_of_spares missed, paint_append_of_spares elsewhere, inductionHypothesis]

end Window

/-! ## Programs that paint -/

section Programs

variable {ι α ε β : Type*} [DecidableEq ι]
  {draw next : (ι → α) → Except ε (ι → α)} {strokes later : List (ι × α)}

/-- On every canvas the program does what the strokes do. -/
def Paints (draw : (ι → α) → Except ε (ι → α)) (strokes : List (ι × α)) : Prop :=
  ∀ canvas, draw canvas = .ok (paint strokes canvas)

theorem Paints.bind (first : Paints draw strokes) (second : Paints next later) :
    Paints (fun canvas => draw canvas >>= next) (strokes ++ later) := by
  intro canvas
  dsimp only
  rw [first canvas, paint_append]
  exact second (paint strokes canvas)

theorem Paints.foldlM {rounds : List β} {body : β → (ι → α) → Except ε (ι → α)}
    {round : β → List (ι × α)} (paints : ∀ i ∈ rounds, Paints (body i) (round i)) :
    Paints (fun canvas => rounds.foldlM (fun canvas i => body i canvas) canvas)
      (rounds.flatMap round) := by
  induction rounds with
  | nil => exact fun _ => rfl
  | cons i rounds inductionHypothesis =>
      exact (paints i List.mem_cons_self).bind
        (inductionHypothesis fun j listed => paints j (List.mem_cons_of_mem _ listed))

end Programs

end Machine
end AuraKernel
