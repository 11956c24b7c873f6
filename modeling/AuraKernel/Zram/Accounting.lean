import AuraKernel.Zram.Pool
import Mathlib.Algebra.BigOperators.Fin
import Mathlib.Algebra.Order.BigOperators.Group.Finset

namespace AuraKernel
namespace Zram

open Machine
open Heap

/-!
# Accounting

The statistics are updated by increments while the slots change underneath.
They stay exact, and since a slot holds less than a page, none of the three
figures can wrap.
-/

/-- What a slot contributes to `pages_stored`. -/
def Slot.pages (slot : Slot) : Nat := if slot.used then 1 else 0

/-- What a slot contributes to `compressed_bytes`. -/
def Slot.bytes (slot : Slot) : Nat := if slot.used then slot.compressedLen else 0

/-- The statistics are those of the pool. -/
structure Accounted (z : ZramState) : Prop where
  pages : z.stats.pagesStored = ∑ i, (z.pool i).pages
  original : z.stats.originalBytes = zramPageSize * z.stats.pagesStored
  compressed : z.stats.compressedBytes = ∑ i, (z.pool i).bytes
  lengths : ∀ i, (z.pool i).used = true →
    0 < (z.pool i).compressedLen ∧ (z.pool i).compressedLen < zramPageSize - 64
  ratio : z.stats.compressionRatioX100 =
    if z.stats.compressedBytes > 0 then 100 * z.stats.originalBytes / z.stats.compressedBytes
    else 100

section Sums

variable {pool : Fin 1024 → Slot} {i : Fin 1024}

theorem sum_update_slot (figure : Slot → Nat) (pool : Fin 1024 → Slot) (i : Fin 1024)
    (slot : Slot) :
    ∑ j, figure (Function.update pool i slot j) + figure (pool i) =
      ∑ j, figure (pool j) + figure slot := by
  have after := Finset.add_sum_erase Finset.univ (fun j => figure (Function.update pool i slot j))
    (Finset.mem_univ i)
  have before := Finset.add_sum_erase Finset.univ (fun j => figure (pool j)) (Finset.mem_univ i)
  have others : ∑ j ∈ Finset.univ.erase i, figure (Function.update pool i slot j) =
      ∑ j ∈ Finset.univ.erase i, figure (pool j) :=
    Finset.sum_congr rfl fun j member => by
      rw [Function.update_of_ne (Finset.ne_of_mem_erase member)]
  simp only [Function.update_self] at after
  omega

theorem sum_pages_le (pool : Fin 1024 → Slot) : ∑ j, (pool j).pages ≤ 1024 := by
  calc
    ∑ j, (pool j).pages ≤ ∑ _j : Fin 1024, 1 := by
      refine Finset.sum_le_sum fun j _ => ?_
      unfold Slot.pages
      split <;> omega
    _ = 1024 := by rw [Finset.sum_const, Finset.card_univ, Fintype.card_fin, smul_eq_mul]

theorem sum_bytes_le (lengths : ∀ i, (pool i).used = true →
    0 < (pool i).compressedLen ∧ (pool i).compressedLen < zramPageSize - 64) :
    ∑ j, (pool j).bytes ≤ 1024 * zramPageSize := by
  calc
    ∑ j, (pool j).bytes ≤ ∑ _j : Fin 1024, zramPageSize := by
      refine Finset.sum_le_sum fun j _ => ?_
      unfold Slot.bytes
      split
      · rename_i used
        have := (lengths j used).2
        omega
      · exact Nat.zero_le _
    _ = 1024 * zramPageSize := by
      rw [Finset.sum_const, Finset.card_univ, Fintype.card_fin, smul_eq_mul]

/-- A slot contributes at most the whole figure. -/
theorem slot_le_sum (figure : Slot → Nat) (pool : Fin 1024 → Slot) (i : Fin 1024) :
    figure (pool i) ≤ ∑ j, figure (pool j) := by
  rw [← Finset.add_sum_erase Finset.univ (fun j => figure (pool j)) (Finset.mem_univ i)]
  exact Nat.le_add_right _ _

end Sums

/-- The ratio is computed without overflow. -/
theorem ratioX100_eq {originalBytes compressedBytes : Nat}
    (small : originalBytes ≤ 1024 * zramPageSize) :
    ratioX100 originalBytes compressedBytes = 100 * originalBytes / compressedBytes := by
  unfold ratioX100
  unfold zramPageSize at small
  rw [wrap64_of_lt (by omega), Nat.mul_comm]
  refine wrap32_of_lt (Nat.lt_of_le_of_lt (Nat.div_le_self _ _) (by omega))

section Updates

variable {z : ZramState}

theorem Accounted.small (accounted : Accounted z) :
    z.stats.pagesStored ≤ 1024 ∧ z.stats.originalBytes ≤ 1024 * zramPageSize ∧
      z.stats.compressedBytes ≤ 1024 * zramPageSize := by
  have pages := sum_pages_le z.pool
  rw [← accounted.pages] at pages
  refine ⟨pages, ?_, ?_⟩
  · rw [accounted.original, Nat.mul_comm]
    exact Nat.mul_le_mul_right _ pages
  · rw [accounted.compressed]
    exact sum_bytes_le accounted.lengths

theorem zramInit_accounted (heap : HeapState) : Accounted (zramInit heap) where
  pages := (Finset.sum_const_zero).symm
  original := rfl
  compressed := (Finset.sum_const_zero).symm
  lengths := fun _ used => Bool.noConfusion used
  ratio := rfl

theorem Accounted.store (accounted : Accounted z) {i : Fin 1024} (unused : (z.pool i).used = false)
    {compLen data : Nat} (positive : 0 < compLen) (short : compLen < zramPageSize - 64)
    (heap : HeapState) :
    Accounted
      { heap := heap
        pool := Function.update z.pool i
          { data := data, compressedLen := compLen % 2 ^ 16, used := true }
        stats := z.stats.store compLen } := by
  rcases accounted.small with ⟨_, _, bytesSmall⟩
  have lenLt : compLen < 4032 := short
  have lenEq : compLen % 2 ^ 16 = compLen := Nat.mod_eq_of_lt (by omega)
  rw [lenEq]
  have lengths : ∀ j, (Function.update z.pool i
      { data := data, compressedLen := compLen, used := true } j).used = true →
      0 < (Function.update z.pool i
        { data := data, compressedLen := compLen, used := true } j).compressedLen ∧
      (Function.update z.pool i
        { data := data, compressedLen := compLen, used := true } j).compressedLen <
          zramPageSize - 64 := by
    intro j used
    by_cases same : j = i
    · subst same
      rw [Function.update_self]
      exact ⟨positive, short⟩
    · rw [Function.update_of_ne same] at used ⊢
      exact accounted.lengths j used
  have pagesEq := sum_update_slot Slot.pages z.pool i
    { data := data, compressedLen := compLen, used := true }
  have bytesEq := sum_update_slot Slot.bytes z.pool i
    { data := data, compressedLen := compLen, used := true }
  have pagesLe := sum_pages_le (Function.update z.pool i
    { data := data, compressedLen := compLen, used := true })
  simp only [Slot.pages, Slot.bytes, unused, if_true, Bool.false_eq_true, if_false]
    at pagesEq bytesEq
  have pagesSum := accounted.pages
  have bytesSum := accounted.compressed
  simp only [Slot.pages, Slot.bytes] at pagesSum bytesSum pagesLe
  have pagesWrap : wrap32 (z.stats.pagesStored + 1) = z.stats.pagesStored + 1 :=
    wrap32_of_lt (by omega)
  have originalWrap : wrap32 (z.stats.originalBytes + zramPageSize) =
      z.stats.originalBytes + zramPageSize := by
    have := accounted.original
    unfold zramPageSize at *
    exact wrap32_of_lt (by omega)
  have compressedWrap : wrap32 (z.stats.compressedBytes + wrap32 compLen) =
      z.stats.compressedBytes + compLen := by
    unfold zramPageSize at bytesSmall
    rw [wrap32_of_lt (show compLen < 2 ^ 32 by omega)]
    exact wrap32_of_lt (by omega)
  constructor
  case pages =>
    simp only [Stats.store, pagesWrap, Slot.pages]
    omega
  case original =>
    simp only [Stats.store, pagesWrap, originalWrap]
    rw [accounted.original, Nat.mul_add, Nat.mul_one]
  case compressed =>
    simp only [Stats.store, compressedWrap, Slot.bytes]
    omega
  case lengths => exact lengths
  case ratio =>
    simp only [Stats.store, compressedWrap, originalWrap]
    rw [if_pos (by omega), if_pos (by omega)]
    refine ratioX100_eq ?_
    have := accounted.original
    unfold zramPageSize at *
    omega

theorem Accounted.free (accounted : Accounted z) {i : Fin 1024} (used : (z.pool i).used = true)
    (heap : HeapState) :
    Accounted
      { heap := heap
        pool := Function.update z.pool i emptySlot
        stats := z.stats.free (z.pool i).compressedLen } := by
  rcases accounted.small with ⟨pagesSmall, originalSmall, bytesSmall⟩
  have pagesEq := sum_update_slot Slot.pages z.pool i emptySlot
  have bytesEq := sum_update_slot Slot.bytes z.pool i emptySlot
  have pagesLe := slot_le_sum Slot.pages z.pool i
  have bytesLe := slot_le_sum Slot.bytes z.pool i
  simp only [Slot.pages, Slot.bytes, used, if_true, emptySlot, Bool.false_eq_true, if_false]
    at pagesEq bytesEq pagesLe bytesLe
  have pagesSum := accounted.pages
  have bytesSum := accounted.compressed
  have original := accounted.original
  simp only [Slot.pages, Slot.bytes] at pagesSum bytesSum
  have pagesSub : sub32 z.stats.pagesStored 1 = z.stats.pagesStored - 1 := if_pos (by omega)
  have originalSub : sub32 z.stats.originalBytes zramPageSize =
      z.stats.originalBytes - zramPageSize := if_pos (by unfold zramPageSize at *; omega)
  have compressedSub : sub32 z.stats.compressedBytes (z.pool i).compressedLen =
      z.stats.compressedBytes - (z.pool i).compressedLen := if_pos (by omega)
  constructor
  case pages =>
    simp only [Stats.free, pagesSub, Slot.pages, emptySlot]
    omega
  case original =>
    simp only [Stats.free, pagesSub, originalSub]
    rw [original, Nat.mul_sub, Nat.mul_one]
  case compressed =>
    simp only [Stats.free, compressedSub, Slot.bytes, emptySlot]
    omega
  case lengths =>
    intro j isUsed
    by_cases same : j = i
    · subst same
      simp only [Function.update_self, emptySlot, Bool.false_eq_true] at isUsed
    · simp only [Function.update_of_ne same] at isUsed ⊢
      exact accounted.lengths j isUsed
  case ratio =>
    simp only [Stats.free, compressedSub, originalSub]
    split
    · exact ratioX100_eq (by omega)
    · rfl

end Updates

end Zram
end AuraKernel
