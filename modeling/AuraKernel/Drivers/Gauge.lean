import AuraKernel.Drivers.Widgets
import AuraKernel.Telemetry.Sysmon

namespace AuraKernel
namespace Drivers

open Machine
open Telemetry

/-!
# The gauge

`tui_draw_bar` multiplies the value by the width in 32 bits and divides by the
maximum afterwards.  A product that does not fit loses a multiple of `2 ^ 32`,
which is more than the maximum, so the bar comes out too short unless what is
left of the product still fills it.
-/

/-- The number of full cells of a bar, with the product over the integers. -/
def gaugeFill (width val max : Nat) : Nat := min width (val * width / max)

/-- The product fits into 32 bits, or what it exceeds a multiple of `2 ^ 32` by fills the bar. -/
def ProductFits (width val max : Nat) : Prop :=
  val * width < 2 ^ 32 ∨
    ∃ k, k * 2 ^ 32 + width * max ≤ val * width ∧ val * width < (k + 1) * 2 ^ 32

/-- What a bar with `filled` full cells changes, and what it shows behind the call. -/
structure BarShown (x y width : Int) (filled : Nat) (fgFill fgEmpty : UInt8)
    (before after : Screen) : Prop where
  inside : ∀ cell, after cell ≠ before cell →
    ∃ column, (x ≤ column ∧ column < x + width) ∧ OnScreen column y ∧ cell = cellIndex column y
  full : ∀ i : Int, 0 ≤ i → i < filled → CellShows after (x + i) y barFull fgFill
  empty : ∀ i : Int, filled ≤ i → i < width → CellShows after (x + i) y barLight fgEmpty

/-- On every screen a call of `tui_draw_bar` shows a bar with `filled` full cells. -/
def ShowsBar (x y width : Int) (val max : UInt32) (fgFill fgEmpty : UInt8) (filled : Nat) : Prop :=
  ∀ before, ∃ after, tuiDrawBar x y width val max fgFill fgEmpty before = .ok after ∧
    BarShown x y width filled fgFill fgEmpty before after

/-- Wherever the bar is drawn and in whatever colours, it is proportional. -/
def Proportional (width : Int) (val max : UInt32) : Prop :=
  ∀ x y fgFill fgEmpty,
    ShowsBar x y width val max fgFill fgEmpty (gaugeFill width.toNat val.toNat max.toNat)

/-- The figures are those that `sysmon_get_stats` reports in some state of the system. -/
def Reported (stats : SysmonStats) : Prop :=
  ∃ now phys zstats s, stats = sysmonGetStats now phys zstats s

/-- The bar of `draw_memory_box` is proportional. -/
def MemoryBarProportional (stats : SysmonStats) : Prop :=
  -- `COLOR_MAGENTA` and `COLOR_BORDER`
  ShowsBar 42 7 36 (UInt32.ofNat stats.ramUsedKb) (UInt32.ofNat stats.ramTotalKb) 13 8
    (gaugeFill 36 stats.ramUsedKb stats.ramTotalKb)

/-! ## The figure -/

section Figure

variable {width val max product : Nat}

/-- The gauge does not fall when the value grows. -/
theorem gaugeFill_mono {more : Nat} (le : val ≤ more) :
    gaugeFill width val max ≤ gaugeFill width more max := by
  have products : val * width ≤ more * width := Nat.mul_le_mul_right width le
  exact min_le_min_left width (Nat.div_le_div_right products)

/-- The gauge is full when the value reaches the maximum. -/
theorem gaugeFill_eq_width_iff (wide : 0 < width) (positive : 0 < max) :
    gaugeFill width val max = width ↔ max ≤ val := by
  unfold gaugeFill
  rw [min_eq_left_iff, Nat.le_div_iff_mul_le positive, Nat.mul_comm width max]
  exact Nat.mul_le_mul_right_iff wide

/-- A product that loses a multiple of a number that is at least the maximum gives the same
figure if and only if nothing is lost or what is left fills the bar. -/
theorem min_mod_div_eq_iff {modulus : Nat} (positive : 0 < max) (le : max ≤ modulus) :
    min width (product % modulus / max) = min width (product / max) ↔
      product < modulus ∨ width * max ≤ product % modulus := by
  constructor
  · intro same
    by_contra neither
    have large : modulus ≤ product := Nat.not_lt.mp fun small => neither (Or.inl small)
    have short : product % modulus / max < width :=
      (Nat.div_lt_iff_lt_mul positive).mpr (Nat.not_le.mp fun fills => neither (Or.inr fills))
    have lost : product % modulus + max ≤ product := by
      have rest : product % modulus = (product - modulus) % modulus := Nat.mod_eq_sub_mod large
      have fewer := Nat.mod_le (product - modulus) modulus
      omega
    have more : product % modulus / max + 1 ≤ product / max := by
      rw [← Nat.add_div_right _ positive]
      exact Nat.div_le_div_right lost
    omega
  · rintro (small | fills)
    · rw [Nat.mod_eq_of_lt small]
    · have left : width ≤ product % modulus / max := (Nat.le_div_iff_mul_le positive).mpr fills
      have whole : product % modulus / max ≤ product / max :=
        Nat.div_le_div_right (Nat.mod_le product modulus)
      rw [Nat.min_eq_left left, Nat.min_eq_left (Nat.le_trans left whole)]

theorem productFits_iff :
    ProductFits width val max ↔
      val * width < 2 ^ 32 ∨ width * max ≤ val * width % 2 ^ 32 := by
  have parts := Nat.div_add_mod (val * width) (2 ^ 32)
  have rest := Nat.mod_lt (val * width) (show 0 < 2 ^ 32 by decide)
  unfold ProductFits
  apply or_congr Iff.rfl
  constructor
  · rintro ⟨k, low, high⟩
    have quotient : val * width / 2 ^ 32 = k :=
      Nat.div_eq_of_lt_le (Nat.le_trans (Nat.le_add_right _ _) low) high
    rw [quotient] at parts
    omega
  · intro fills
    exact ⟨val * width / 2 ^ 32, by omega, by omega⟩

/-- For a value of at most the maximum the product has to fit. -/
theorem productFits_iff_of_le (le : val ≤ max) :
    ProductFits width val max ↔ val * width < 2 ^ 32 := by
  unfold ProductFits
  apply or_iff_left_of_imp
  rintro ⟨k, low, high⟩
  have products : val * width ≤ width * max := by
    rw [Nat.mul_comm width max]
    exact Nat.mul_le_mul_right width le
  omega

end Figure

/-! ## The bar -/

section Bar

variable {x y width : Int} {val max : UInt32} {fgFill fgEmpty : UInt8}

theorem barFilled_eq (positive : 1 ≤ width) (narrow : width ≤ 80) (val max : UInt32) :
    (barFilled width val max).toNat =
      min width.toNat (val.toNat * width.toNat % 2 ^ 32 / max.toNat) := by
  have wide : (UInt32.ofInt width).toNat = width.toNat := by
    unfold UInt32.ofInt
    rw [UInt32.toNat_ofNat']
    omega
  have product : (val * UInt32.ofInt width / max).toNat =
      val.toNat * width.toNat % 2 ^ 32 / max.toNat := by
    rw [UInt32.toNat_div, UInt32.toNat_mul, wide]
  unfold barFilled
  dsimp only
  by_cases clamped : val * UInt32.ofInt width / max > UInt32.ofInt width
  · have less := UInt32.lt_iff_toNat_lt.mp clamped
    rw [wide, product] at less
    rw [if_pos clamped, wide]
    omega
  · have le := Nat.not_lt.mp fun less => clamped (UInt32.lt_iff_toNat_lt.mpr less)
    rw [wide, product] at le
    rw [if_neg clamped, product]
    omega

/-- The strokes of a bar with `filled` full cells. -/
def barStrokes (x y width : Int) (filled : Nat) (fgFill fgEmpty : UInt8) :
    List ((Int × Int) × UInt16) :=
  (Int.range 0 width).flatMap fun i =>
    [((x + i, y), if i < filled then vgaEntry barFull fgFill else vgaEntry barLight fgEmpty)]

theorem tuiDrawBar_draws (x y : Int) (positive : 1 ≤ width) (narrow : width ≤ 80) (val : UInt32)
    (someMax : 0 < max) (fgFill fgEmpty : UInt8) :
    Draws (tuiDrawBar x y width val max fgFill fgEmpty)
      (barStrokes x y width (barFilled width val max).toNat fgFill fgEmpty) := by
  have small : (barFilled width val max).toNat ≤ 80 := by
    rw [barFilled_eq positive narrow]
    omega
  have signed : (barFilled width val max).toBitVec.toInt = (barFilled width val max).toNat :=
    BitVec.toInt_eq_toNat_of_lt (show 2 * (barFilled width val max).toNat < 2 ^ 32 by omega)
  have proceeds : ¬ (width ≤ 0 ∨ max = 0) := by
    rintro (nonpositive | zero)
    · omega
    · rw [zero] at someMax
      exact absurd someMax (by decide)
  intro screen
  unfold tuiDrawBar
  dsimp only
  rw [if_neg proceeds, signed]
  refine @Draws.forInt 0 width _ (fun i => [((x + i, y),
    if i < (barFilled width val max).toNat then vgaEntry barFull fgFill
    else vgaEntry barLight fgEmpty)]) (fun i => ?_) screen
  by_cases full : i < (barFilled width val max).toNat
  · rw [if_pos full, if_pos full]
    exact tuiPutcAt_draws (x + i) y barFull fgFill
  · rw [if_neg full, if_neg full]
    exact tuiPutcAt_draws (x + i) y barLight fgEmpty

/-- Each column of the bar is drawn once. -/
theorem barStrokes_settles {filled : Nat} {i : Int} (inside : 0 ≤ i ∧ i < width) :
    Settles (barStrokes x y width filled fgFill fgEmpty) (x + i, y)
      (if i < filled then vgaEntry barFull fgFill else vgaEntry barLight fgEmpty) := by
  apply Settles.flatMap (Int.mem_range_iff.mpr inside)
  · exact Settles.single
  · intro j _ other stroke listed met
    rw [List.mem_singleton.mp listed] at met
    have same : x + j = x + i := congrArg Prod.fst met
    omega

theorem tuiDrawBar_shows (x y : Int) (positive : 1 ≤ width) (narrow : width ≤ 80) (val : UInt32)
    (someMax : 0 < max) (fgFill fgEmpty : UInt8) :
    ShowsBar x y width val max fgFill fgEmpty (barFilled width val max).toNat := by
  intro before
  have draws := tuiDrawBar_draws x y positive narrow val someMax fgFill fgEmpty
  have clamped : (barFilled width val max).toNat ≤ width.toNat := by
    rw [barFilled_eq positive narrow]
    exact Nat.min_le_left _ _
  refine ⟨_, draws before, ?_, ?_, ?_⟩
  · intro cell changed
    rcases shown_of_paint_ne changed with ⟨stroke, listed, seen⟩
    rcases screenCell_eq_some_iff.mp seen with ⟨visible, index⟩
    rcases List.mem_flatMap.mp listed with ⟨i, isColumn, isStroke⟩
    have range := Int.mem_range_iff.mp isColumn
    rw [List.mem_singleton.mp isStroke] at visible index
    exact ⟨x + i, by omega, visible, index.symm⟩
  · intro i low high
    have settles := @barStrokes_settles x y width fgFill fgEmpty
      (barFilled width val max).toNat i (by omega)
    rw [if_pos high] at settles
    exact shows_of_settles settles
  · intro i low high
    have settles := @barStrokes_settles x y width fgFill fgEmpty
      (barFilled width val max).toNat i (by omega)
    rw [if_neg (by omega)] at settles
    exact shows_of_settles settles

/-- A bar on the screen has one number of full cells. -/
theorem BarShown.unique {filled other : Nat} {before after : Screen}
    (visible : ∀ i, 0 ≤ i → i < width → OnScreen (x + i) y)
    (first : BarShown x y width filled fgFill fgEmpty before after)
    (second : BarShown x y width other fgFill fgEmpty before after)
    (firstLe : (filled : Int) ≤ width) (secondLe : (other : Int) ≤ width) : filled = other := by
  -- A column behind the one and in front of the other would be both full and empty
  have notLess : ∀ {few many : Nat}, BarShown x y width few fgFill fgEmpty before after →
      BarShown x y width many fgFill fgEmpty before after → (many : Int) ≤ width →
        ¬ few < many := by
    intro few many isFew isMany le less
    have seen := visible few (by omega) (by omega)
    have isEmpty := isFew.empty few (Int.le_refl _) (by omega) seen
    have isFull := isMany.full few (by omega) (by omega) seen
    exact absurd (vgaEntry_inj (isEmpty.symm.trans isFull)) (by decide)
  exact Nat.le_antisymm (Nat.not_lt.mp (notLess second first firstLe))
    (Nat.not_lt.mp (notLess first second secondLe))

/-- The figure that is drawn is that over the integers if and only if the product fits. -/
theorem barFilled_eq_gaugeFill_iff (positive : 1 ≤ width) (narrow : width ≤ 80)
    (someMax : 0 < max) :
    (barFilled width val max).toNat = gaugeFill width.toNat val.toNat max.toNat ↔
      ProductFits width.toNat val.toNat max.toNat := by
  have maxPositive : 0 < max.toNat := UInt32.lt_iff_toNat_lt.mp someMax
  rw [barFilled_eq positive narrow, productFits_iff]
  exact min_mod_div_eq_iff maxPositive (Nat.le_of_lt max.toNat_lt)

/-- If the product fits, the bar is proportional wherever it is. -/
theorem showsBar_of_fits (x y : Int) (positive : 1 ≤ width) (narrow : width ≤ 80)
    (someMax : 0 < max) (fits : ProductFits width.toNat val.toNat max.toNat) :
    ShowsBar x y width val max fgFill fgEmpty (gaugeFill width.toNat val.toNat max.toNat) := by
  rw [← (barFilled_eq_gaugeFill_iff positive narrow someMax).mpr fits]
  exact tuiDrawBar_shows x y positive narrow val someMax fgFill fgEmpty

/-- If a bar on the screen is proportional, the product fits. -/
theorem fits_of_showsBar (positive : 1 ≤ width) (narrow : width ≤ 80) (someMax : 0 < max)
    (visible : ∀ i, 0 ≤ i → i < width → OnScreen (x + i) y)
    (shows : ShowsBar x y width val max fgFill fgEmpty
      (gaugeFill width.toNat val.toNat max.toNat)) :
    ProductFits width.toNat val.toNat max.toNat := by
  have drawn := tuiDrawBar_shows x y positive narrow val someMax fgFill fgEmpty
  have figure := barFilled_eq positive narrow val max
  have clamped : gaugeFill width.toNat val.toNat max.toNat ≤ width.toNat := Nat.min_le_left _ _
  rcases drawn (fun _ => 0) with ⟨after, ran, bar⟩
  rcases shows (fun _ => 0) with ⟨other, ranToo, gauge⟩
  rw [Except.ok.inj (ranToo.symm.trans ran)] at gauge
  apply (barFilled_eq_gaugeFill_iff positive narrow someMax).mp
  exact bar.unique visible gauge (by omega) (by omega)

end Bar

section Main

/-- Columns `0` to `79` of the first row are on the screen. -/
theorem onScreen_first {width : Int} (narrow : width ≤ 80) (i : Int) (low : 0 ≤ i)
    (high : i < width) : OnScreen (0 + i) 0 := by
  unfold OnScreen vgaWidth vgaHeight
  omega

/-- The bar of the memory is proportional if and only if the product fits. -/
theorem memoryBarProportional_iff {stats : SysmonStats} (used : stats.ramUsedKb < 2 ^ 32)
    (total : stats.ramTotalKb < 2 ^ 32) (someRam : 0 < stats.ramTotalKb) :
    MemoryBarProportional stats ↔ ProductFits 36 stats.ramUsedKb stats.ramTotalKb := by
  have usedWord : (UInt32.ofNat stats.ramUsedKb).toNat = stats.ramUsedKb :=
    UInt32.toNat_ofNat_of_lt used
  have totalWord : (UInt32.ofNat stats.ramTotalKb).toNat = stats.ramTotalKb :=
    UInt32.toNat_ofNat_of_lt total
  have someMax : 0 < UInt32.ofNat stats.ramTotalKb := by
    apply UInt32.lt_iff_toNat_lt.mpr
    rw [totalWord]
    exact someRam
  have visible : ∀ i : Int, 0 ≤ i → i < 36 → OnScreen (42 + i) 7 := by
    intro i low high
    unfold OnScreen vgaWidth vgaHeight
    omega
  have positive : (1 : Int) ≤ 36 := by decide
  have narrow : (36 : Int) ≤ 80 := by decide
  constructor
  · intro shows
    have fits := @fits_of_showsBar 42 7 36 (UInt32.ofNat stats.ramUsedKb) _ 13 8 positive narrow
      someMax visible
    rw [usedWord, totalWord] at fits
    exact fits shows
  · intro fits
    have shows := @showsBar_of_fits 36 (UInt32.ofNat stats.ramUsedKb) _ 13 8 42 7 positive narrow
      someMax
    rw [usedWord, totalWord] at shows
    exact shows fits

/-- For every value, every maximum and every width on the screen, the bar is proportional if and
only if the product fits; the figure it should show grows with the value and is full when the
value reaches the maximum.  The same holds for the bar of the memory with all figures that the
monitor reports; while no more memory is used than there is, it is proportional if and only if
the product of the used KiB and its width fits. -/
theorem tuiDrawBar_proportional_iff {width : Int} (positive : 1 ≤ width) (narrow : width ≤ 80)
    (val : UInt32) {max : UInt32} (someMax : 0 < max) :
    (Proportional width val max ↔ ProductFits width.toNat val.toNat max.toNat) ∧
      (∀ more : UInt32, val ≤ more →
        gaugeFill width.toNat val.toNat max.toNat ≤ gaugeFill width.toNat more.toNat max.toNat) ∧
      (gaugeFill width.toNat val.toNat max.toNat = width.toNat ↔ max ≤ val) ∧
      ∀ stats, Reported stats → 0 < stats.ramTotalKb →
        (MemoryBarProportional stats ↔ ProductFits 36 stats.ramUsedKb stats.ramTotalKb) ∧
          (stats.ramUsedKb ≤ stats.ramTotalKb →
            (MemoryBarProportional stats ↔ stats.ramUsedKb * 36 < 2 ^ 32)) := by
  refine ⟨?_, ?_, ?_, ?_⟩
  · constructor
    · intro proportional
      apply fits_of_showsBar positive narrow someMax (onScreen_first narrow)
      exact proportional 0 0 7 8
    · exact fun fits x y _ _ => showsBar_of_fits x y positive narrow someMax fits
  · intro more le
    exact gaugeFill_mono (UInt32.le_iff_toNat_le.mp le)
  · rw [gaugeFill_eq_width_iff (by omega) (UInt32.lt_iff_toNat_lt.mp someMax)]
    exact UInt32.le_iff_toNat_le.symm
  · rintro _ ⟨now, phys, zstats, s, rfl⟩ someRam
    have bar := memoryBarProportional_iff (Nat.mod_lt _ (by decide)) (Nat.mod_lt _ (by decide))
      someRam
    refine ⟨bar, fun le => ?_⟩
    rw [bar, productFits_iff_of_le le]

/-- Half of 1 GiB on the dashboard -/
theorem tuiDrawBar_proportional_iff_half : Proportional 36 524288 1048576 := by
  apply (tuiDrawBar_proportional_iff (by decide) (by decide) 524288 (by decide)).1.mpr
  exact Or.inl (by decide)

/-- With all of 128 GiB in use, 4 of the 36 cells are full. -/
theorem not_proportional :
    (barFilled 36 134217728 134217728).toNat = 4 ∧ ¬ Proportional 36 134217728 134217728 := by
  have four : (barFilled 36 134217728 134217728).toNat = 4 := by decide +kernel
  refine ⟨four, fun proportional => ?_⟩
  have positive : (1 : Int) ≤ 36 := by decide
  have narrow : (36 : Int) ≤ 80 := by decide
  have someMax : (0 : UInt32) < 134217728 := by decide
  rcases proportional 0 0 7 8 (fun _ => 0) with ⟨after, ran, bar⟩
  rcases tuiDrawBar_shows 0 0 positive narrow 134217728 someMax 7 8 (fun _ => 0) with
    ⟨other, ranToo, drawn⟩
  rw [Except.ok.inj (ranToo.symm.trans ran), four] at drawn
  have isFull := bar.full 4 (by decide) (by decide) (by decide)
  have isEmpty := drawn.empty 4 (by decide) (by decide) (by decide)
  exact absurd (vgaEntry_inj (isEmpty.symm.trans isFull)) (by decide)

end Main

end Drivers
end AuraKernel
