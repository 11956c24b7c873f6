import AuraKernel.Physical.Reservation

namespace AuraKernel
namespace Physical

open Machine

/-!
# The frame space

`FrameSpace` is what every client of the manager relies on: the manager's own
invariant, a direct map that does not wrap, and a set of reserved frames, among
them frame 0 and the frames of the bitmap, that are never handed out.
-/

/-- The frames that the manager can hand out, seen through a direct map. -/
structure FrameSpace (phys : PhysState) (offset : Nat) (reserved : Set Nat) : Prop where
  pmm : PmmInv phys
  space_lt : offset + phys.pmm.totalFrames * pageSize < 2 ^ 64
  zero_reserved : 0 ∈ reserved
  reserved_used : ∀ frame ∈ reserved, frame < phys.pmm.totalFrames → phys.Used frame
  bitmap_reserved : ∀ frame, frame < phys.pmm.totalFrames → ∀ place ∈ phys.bitmapBytes,
    offset + frame * pageSize ≤ place → place < offset + (frame + 1) * pageSize →
      frame ∈ reserved

section Frames

variable {phys phys' : PhysState} {offset : Nat} {reserved : Set Nat}

/-- Writes outside the bitmap do not disturb the frame space. -/
theorem FrameSpace.congr (space : FrameSpace phys offset reserved) (pmm : phys'.pmm = phys.pmm)
    (bitmap : ∀ place ∈ phys.bitmapBytes, phys'.mem place = phys.mem place) :
    FrameSpace phys' offset reserved where
  pmm := space.pmm.congr pmm bitmap
  space_lt := by
    rw [pmm]
    exact space.space_lt
  zero_reserved := space.zero_reserved
  reserved_used := fun frame member bound => by
    rw [pmm] at bound
    exact (used_congr pmm bitmap bound).mpr (space.reserved_used frame member bound)
  bitmap_reserved := by
    unfold PhysState.bitmapBytes
    rw [pmm]
    exact space.bitmap_reserved

/-- The frame of an address inside a run. -/
theorem frame_of_place {first count place : Nat}
    (inside : offset + first * pageSize ≤ place ∧ place < offset + (first + count) * pageSize) :
    ∃ frame, first ≤ frame ∧ frame < first + count ∧ offset + frame * pageSize ≤ place ∧
      place < offset + (frame + 1) * pageSize := by
  unfold pageSize at *
  refine ⟨(place - offset) / 4096, ?_, ?_, ?_, ?_⟩ <;> omega

/-- Taking free frames keeps the frame space. -/
theorem FrameSpace.takes {taken : Set Nat} (space : FrameSpace phys offset reserved)
    (takes : Takes phys phys' taken) : FrameSpace phys' offset reserved where
  pmm := takes.inv
  space_lt := by
    rw [takes.total_eq]
    exact space.space_lt
  zero_reserved := space.zero_reserved
  reserved_used := fun frame member bound => by
    rw [takes.total_eq] at bound
    exact (takes.used_iff frame).mpr (Or.inl (space.reserved_used frame member bound))
  bitmap_reserved := by
    rw [takes.bitmapBytes_eq, takes.total_eq]
    exact space.bitmap_reserved

/-- A free frame has no byte of the bitmap. -/
theorem FrameSpace.free_not_bitmap (space : FrameSpace phys offset reserved) {frame place : Nat}
    (bound : frame < phys.pmm.totalFrames) (free : phys.Free frame)
    (low : offset + frame * pageSize ≤ place) (high : place < offset + (frame + 1) * pageSize) :
    place ∉ phys.bitmapBytes := by
  intro inBitmap
  have used := space.reserved_used frame
    (space.bitmap_reserved frame bound place inBitmap low high) bound
  exact (phys.not_free_iff frame).mpr used free

/-- A run of free frames does not start at frame 0. -/
theorem FrameSpace.frame_zero (space : FrameSpace phys offset reserved) {start pages : Nat}
    (positive : 0 < pages) (free : Run phys.Free pages start)
    (bound : start + pages ≤ phys.pmm.totalFrames) :
    start ≠ 0 := by
  rintro rfl
  exact (phys.not_free_iff 0).mpr (space.reserved_used 0 space.zero_reserved (by omega))
    (free 0 (Nat.le_refl _) (by omega))

/-- Releasing a frame that is not reserved keeps the frame space. -/
theorem FrameSpace.releases {released : Nat} (space : FrameSpace phys offset reserved)
    (releases : Releases phys phys' released) (notReserved : released ∉ reserved) :
    FrameSpace phys' offset reserved where
  pmm := releases.inv
  space_lt := by
    rw [releases.total_eq]
    exact space.space_lt
  zero_reserved := space.zero_reserved
  reserved_used := fun frame member bound => by
    rw [releases.total_eq] at bound
    exact (releases.used_iff frame).mpr
      ⟨space.reserved_used frame member bound, fun same => notReserved (same ▸ member)⟩
  bitmap_reserved := by
    rw [releases.bitmapBytes_eq, releases.total_eq]
    exact space.bitmap_reserved

/-- The manager as `kernel_main` sets it up is a frame space for an identity map. -/
theorem frameSpace_setupPmm {ramSize kernelEnd : Nat} (s : PhysState) (bound : ramSize < 2 ^ 64)
    (image : 0 < kernelEnd) (fits : ImageFits ramSize kernelEnd) :
    FrameSpace (setupPmm ramSize kernelEnd s) 0
      {frame | frame < reservedFrames ramSize kernelEnd} := by
  rcases setupPmm_spec s bound kernelEnd with ⟨inv, total, bitmap, usedIff⟩
  rcases reserved_cover fits with ⟨behind, covers⟩
  constructor
  case pmm => exact inv
  case space_lt =>
    rw [total]
    unfold pageSize
    omega
  case zero_reserved =>
    rw [Set.mem_ofPred_eq]
    unfold pageSize at covers
    omega
  case reserved_used =>
    intro frame member inMemory
    rw [total] at inMemory
    exact (usedIff frame inMemory).mpr member
  case bitmap_reserved =>
    intro frame inMemory place inBitmap low _
    unfold PhysState.bitmapBytes at inBitmap
    rw [bitmap, total, Set.mem_Ico] at inBitmap
    rw [Set.mem_ofPred_eq]
    unfold pageSize at *
    omega

end Frames

end Physical
end AuraKernel
