import AuraKernel.Physical.PlainScan

namespace AuraKernel
namespace Physical

open Machine

/-!
# The set-up of the manager at boot

`kernel_main` places the bitmap behind the kernel image, initialises the
manager with the size of the memory, and marks every frame up to the end of the
bitmap as used.  Nothing ever frees these frames again, so they are the
reserved frames of the allocators.
-/

/-- `ram_size`: the memory that was detected, or 64 MiB. -/
def ramSize (totalMemoryBytes : Nat) : Nat :=
  if totalMemoryBytes ≠ 0 then totalMemoryBytes else 64 * 1024 * 1024

/-- `bitmap_phys`: the first page boundary from `_end` on. -/
def bitmapPhys (kernelEnd : Nat) : Nat := alignUp kernelEnd pageSize

def reservedFrames (ramSize kernelEnd : Nat) : Nat :=
  wrap64 (bitmapPhys kernelEnd + bitmapSize (ramSize / pageSize) + 4095) / pageSize

/-- `for (f = 0; f < count; f++) pmm_mark_used(f * PAGE_SIZE)` -/
def reserveLoop : Nat → PhysState → PhysState
  | 0, s => s
  | count + 1, s => pmmMarkUsed (count * pageSize) (reserveLoop count s)

/-- `pmm_init` and the reservation loop, for a memory of `ramSize` bytes. -/
def setupPmm (ramSize kernelEnd : Nat) (s : PhysState) : PhysState :=
  reserveLoop (reservedFrames ramSize kernelEnd) (pmmInit ramSize (bitmapPhys kernelEnd) s)

/-- Step 7 of `kernel_main`. -/
def kernelMainPmm (totalMemoryBytes kernelEnd : Nat) (s : PhysState) : PhysState :=
  setupPmm (ramSize totalMemoryBytes) kernelEnd s

theorem reserveLoop_effect {s : PhysState} (inv : PmmInv s) (count : Nat) :
    Takes s (reserveLoop count s)
      {frame | frame < count ∧ frame < s.pmm.totalFrames ∧ s.Free frame} := by
  induction count with
  | zero =>
      have none : {frame | frame < 0 ∧ frame < s.pmm.totalFrames ∧ s.Free frame} =
          (∅ : Set Nat) := by
        ext frame
        simp
      rw [none]
      exact Takes.refl inv
  | succ count inductionHypothesis =>
      have next := pmmMarkUsed_effect inductionHypothesis.inv (count * pageSize)
      rw [Nat.mul_div_cancel count (by decide : 0 < pageSize)] at next
      rw [reserveLoop]
      constructor
      case bitmap_eq => exact next.bitmap_eq.trans inductionHypothesis.bitmap_eq
      case total_eq => exact next.total_eq.trans inductionHypothesis.total_eq
      case used_iff =>
        intro frame
        have earlier := inductionHypothesis.used_iff frame
        rw [next.used_iff frame, earlier]
        simp only [Set.mem_ofPred_eq, inductionHypothesis.total_eq, ← PhysState.not_used_iff,
          earlier]
        constructor
        · rintro ((used | ⟨less, bound, free⟩) | ⟨rfl, bound, notUsed⟩)
          · exact Or.inl used
          · exact Or.inr ⟨by omega, bound, free⟩
          · exact Or.inr ⟨by omega, bound, fun used => notUsed (Or.inl used)⟩
        · rintro (used | ⟨less, bound, free⟩)
          · exact Or.inl (Or.inl used)
          · by_cases last : frame = count
            · refine Or.inr ⟨last, bound, ?_⟩
              rintro (used | ⟨before, _⟩)
              · exact free used
              · omega
            · exact Or.inl (Or.inr ⟨by omega, bound, free⟩)
      case was_free => exact fun frame member => member.2
      case mem_eq =>
        intro place outside
        rw [next.mem_eq place (by rw [inductionHypothesis.bitmapBytes_eq]; exact outside)]
        exact inductionHypothesis.mem_eq place outside
      case inv => exact next.inv

section Setup

variable {ramSize kernelEnd : Nat} (s : PhysState)

@[simp] theorem pmmInit_totalFrames (memSize bitmapBase : Nat) :
    (pmmInit memSize bitmapBase s).pmm.totalFrames = memSize / pageSize := rfl

theorem pmmInit_mem_of_outside {memSize bitmapBase place : Nat} (s : PhysState)
    (outside : place < bitmapBase ∨ bitmapBase + bitmapSize (memSize / pageSize) ≤ place) :
    (pmmInit memSize bitmapBase s).mem place = s.mem place := by
  unfold pmmInit
  dsimp only
  rw [Mem.fill_apply, if_neg (by omega)]

theorem ramSize_lt {totalMemoryBytes : Nat} (bound : totalMemoryBytes < 2 ^ 64) :
    Physical.ramSize totalMemoryBytes < 2 ^ 64 := by
  unfold Physical.ramSize
  split <;> omega

/-- The manager after boot: exactly the reserved frames are in use. -/
theorem setupPmm_spec (bound : ramSize < 2 ^ 64) (kernelEnd : Nat) :
    PmmInv (setupPmm ramSize kernelEnd s) ∧
      (setupPmm ramSize kernelEnd s).pmm.totalFrames = ramSize / pageSize ∧
      (setupPmm ramSize kernelEnd s).pmm.bitmap = bitmapPhys kernelEnd ∧
      ∀ frame, frame < ramSize / pageSize →
        ((setupPmm ramSize kernelEnd s).Used frame ↔ frame < reservedFrames ramSize kernelEnd) := by
  have start := pmmInit_inv bound (bitmapPhys kernelEnd) s
  have effect := reserveLoop_effect start (reservedFrames ramSize kernelEnd)
  refine ⟨effect.inv, effect.total_eq, effect.bitmap_eq, ?_⟩
  intro frame inMemory
  have free : (pmmInit ramSize (bitmapPhys kernelEnd) s).Free frame := pmmInit_free inMemory
  unfold setupPmm
  rw [effect.used_iff frame]
  constructor
  · rintro (used | ⟨less, _⟩)
    · exact absurd used ((PhysState.not_used_iff _ _).mpr free)
    · exact less
  · exact fun less => Or.inr ⟨less, inMemory, free⟩

theorem setupPmm_mem_of_outside (bound : ramSize < 2 ^ 64) (kernelEnd : Nat) {place : Nat}
    (outside : place ∉ (setupPmm ramSize kernelEnd s).bitmapBytes) :
    (setupPmm ramSize kernelEnd s).mem place = s.mem place := by
  have effect := reserveLoop_effect (pmmInit_inv bound (bitmapPhys kernelEnd) s)
    (reservedFrames ramSize kernelEnd)
  unfold setupPmm at outside ⊢
  rw [effect.bitmapBytes_eq] at outside
  refine (effect.mem_eq place outside).trans (pmmInit_mem_of_outside s ?_)
  by_contra inside
  apply outside
  change place ∈ Set.Ico (bitmapPhys kernelEnd)
    (bitmapPhys kernelEnd + bitmapSize (ramSize / pageSize))
  constructor <;> omega

/-- The kernel image and the bitmap behind it fit into the address space. -/
def ImageFits (ramSize kernelEnd : Nat) : Prop :=
  kernelEnd + bitmapSize (ramSize / pageSize) + 2 * pageSize ≤ 2 ^ 64

/-- The kernel image and the bitmap lie in the reserved frames. -/
theorem reserved_cover (fits : ImageFits ramSize kernelEnd) :
    kernelEnd ≤ bitmapPhys kernelEnd ∧
      bitmapPhys kernelEnd + bitmapSize (ramSize / pageSize) ≤
        reservedFrames ramSize kernelEnd * pageSize := by
  unfold ImageFits at fits
  have align := @le_alignUp 12 kernelEnd (by decide) (by unfold pageSize at fits; omega)
  rw [show (2 : Nat) ^ 12 = pageSize from rfl] at align
  unfold reservedFrames bitmapPhys bitmapSize pageSize at *
  rw [wrap64_of_lt (by omega)]
  omega

theorem imageFits_of_le (bound : ramSize < 2 ^ 64) (low : kernelEnd ≤ 2 ^ 63) :
    ImageFits ramSize kernelEnd := by
  unfold ImageFits bitmapSize pageSize
  omega

end Setup

end Physical
end AuraKernel
