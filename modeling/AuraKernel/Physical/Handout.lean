import AuraKernel.Physical.FrameSpace

namespace AuraKernel
namespace Physical

open Machine

/-!
# Handing out frames after boot

A custody is the manager together with the frames its callers hold.  Callers
release frames they hold and write to memory outside the bitmap; under this
discipline the reserved frames stay in use for good, and since frame 0 is one
of them the address 0 always means failure.
-/

/-- The manager and the frames that were handed out and not released. -/
structure Custody where
  phys : PhysState
  handed : Set Nat

/-- The frames that a result of `pmm_alloc_contiguous` stands for; 0 stands for none. -/
def framesOf (addr frameCount : Nat) : Set Nat :=
  {frame | addr ≠ 0 ∧ addr / pageSize ≤ frame ∧ frame < addr / pageSize + frameCount}

inductive Custody.Step : Custody → Custody → Prop
  | allocFrame (c : Custody) :
      Step c ⟨(pmmAllocFrame c.phys).2, c.handed ∪ framesOf (pmmAllocFrame c.phys).1 1⟩
  | allocContiguous (c : Custody) (frameCount : Nat) :
      Step c ⟨(pmmAllocContiguous frameCount c.phys).2,
        c.handed ∪ framesOf (pmmAllocContiguous frameCount c.phys).1 frameCount⟩
  | freeFrame (c : Custody) (paddr : Nat) (member : paddr / pageSize ∈ c.handed) :
      Step c ⟨pmmFreeFrame paddr c.phys, c.handed \ {paddr / pageSize}⟩
  | write (c : Custody) (mem : Mem)
      (bitmap : ∀ place ∈ c.phys.bitmapBytes, mem place = c.phys.mem place) :
      Step c ⟨{ c.phys with mem := mem }, c.handed⟩

/-- What boot leaves behind can be reached, and so can the next step. -/
inductive Custody.Reachable (start : PhysState) : Custody → Prop
  | boot : Reachable start ⟨start, ∅⟩
  | step {c d : Custody} : Reachable start c → Custody.Step c d → Reachable start d

/-- The frames in the callers' hands are in use and not reserved. -/
structure CustodyInv (c : Custody) (offset total : Nat) (reserved : Set Nat) : Prop where
  space : FrameSpace c.phys offset reserved
  total_eq : c.phys.pmm.totalFrames = total
  handed : ∀ frame ∈ c.handed, frame < total ∧ c.phys.Used frame ∧ frame ∉ reserved

section Steps

variable {c : Custody} {offset total : Nat} {reserved : Set Nat}

/-- A call of `pmm_alloc_frame` fails without effect, or hands out a frame that
was free. -/
theorem FrameSpace.allocFrame {phys : PhysState} (space : FrameSpace phys offset reserved) :
    (pmmAllocFrame phys = (0, phys) ∧ ∀ frame, frame < phys.pmm.totalFrames → phys.Used frame) ∨
      ∃ frame, frame < phys.pmm.totalFrames ∧ phys.Free frame ∧ frame ∉ reserved ∧ frame ≠ 0 ∧
        (pmmAllocFrame phys).1 = frame * pageSize ∧
        Takes phys (pmmAllocFrame phys).2 {frame} := by
  rcases pmmAllocFrame_cases space.pmm with failed | ⟨frame, first, taken, takes⟩
  · exact Or.inl failed
  · have notReserved : frame ∉ reserved := fun member =>
      (phys.not_free_iff frame).mpr (space.reserved_used frame member first.lt_high) first.sound
    refine Or.inr ⟨frame, first.lt_high, first.sound, notReserved, ?_, by rw [taken]; rfl, takes⟩
    rintro rfl
    exact notReserved space.zero_reserved

/-- A call of `pmm_alloc_contiguous` fails without effect, or hands out frames
that were free. -/
theorem FrameSpace.allocContiguous {phys : PhysState} (space : FrameSpace phys offset reserved)
    (frameCount : Nat) :
    pmmAllocContiguous frameCount phys = (0, phys) ∨
      ∃ start, 0 < frameCount ∧ start + frameCount ≤ phys.pmm.totalFrames ∧ start ≠ 0 ∧
        (∀ frame, start ≤ frame → frame < start + frameCount →
          phys.Free frame ∧ frame ∉ reserved) ∧
        (pmmAllocContiguous frameCount phys).1 = start * pageSize ∧
        Takes phys (pmmAllocContiguous frameCount phys).2 (Set.Ico start (start + frameCount)) := by
  rcases pmmAllocContiguous_cases space.pmm frameCount with
    ⟨failed, _⟩ | ⟨start, positive, free, bound, _, address, takes⟩
  · exact Or.inl failed
  · refine Or.inr ⟨start, positive, bound, space.frame_zero positive free bound, ?_, address, takes⟩
    intro frame low high
    refine ⟨free frame low high, fun member => ?_⟩
    exact (phys.not_free_iff frame).mpr (space.reserved_used frame member (by omega))
      (free frame low high)

theorem framesOf_zero (frameCount : Nat) : framesOf 0 frameCount = ∅ := by
  unfold framesOf
  ext frame
  simp

theorem framesOf_address {start : Nat} (nonzero : start ≠ 0) (frameCount : Nat) :
    framesOf (start * pageSize) frameCount = Set.Ico start (start + frameCount) := by
  unfold framesOf
  rw [Nat.mul_div_cancel start (by decide : 0 < pageSize)]
  ext frame
  simp only [Set.mem_ofPred_eq, Set.mem_Ico]
  exact and_iff_right (Nat.mul_ne_zero nonzero (by decide))

theorem frames_single (frame : Nat) : Set.Ico frame (frame + 1) = {frame} := by
  ext other
  rw [Set.mem_Ico, Set.mem_singleton_iff]
  omega

/-- Handing out frames that were free. -/
theorem CustodyInv.takes {phys : PhysState} {taken : Set Nat}
    (inv : CustodyInv c offset total reserved) (takes : Takes c.phys phys taken)
    (notReserved : ∀ frame ∈ taken, frame ∉ reserved) :
    CustodyInv ⟨phys, c.handed ∪ taken⟩ offset total reserved where
  space := inv.space.takes takes
  total_eq := takes.total_eq.trans inv.total_eq
  handed := by
    rintro frame (old | new)
    · rcases inv.handed frame old with ⟨bound, used, outside⟩
      exact ⟨bound, (takes.used_iff frame).mpr (Or.inl used), outside⟩
    · have bound := (takes.was_free frame new).1
      rw [inv.total_eq] at bound
      exact ⟨bound, (takes.used_iff frame).mpr (Or.inr new), notReserved frame new⟩

theorem CustodyInv.step {d : Custody} (inv : CustodyInv c offset total reserved)
    (step : Custody.Step c d) : CustodyInv d offset total reserved := by
  cases step with
  | allocFrame =>
      rcases inv.space.allocFrame with
        ⟨failed, _⟩ | ⟨frame, _, _, notReserved, nonzero, address, takes⟩
      · rw [failed, framesOf_zero, Set.union_empty]
        exact inv
      · rw [address, framesOf_address nonzero, frames_single]
        refine inv.takes takes fun other member => ?_
        rw [Set.mem_singleton_iff.mp member]
        exact notReserved
  | allocContiguous frameCount =>
      rcases inv.space.allocContiguous frameCount with
        failed | ⟨start, _, _, nonzero, free, address, takes⟩
      · rw [failed, framesOf_zero, Set.union_empty]
        exact inv
      · rw [address, framesOf_address nonzero]
        exact inv.takes takes fun frame member => (free frame member.1 member.2).2
  | freeFrame paddr member =>
      rcases inv.handed _ member with ⟨bound, used, outside⟩
      have releases := pmmMarkFree_effect inv.space.pmm (by rw [inv.total_eq]; exact bound) used
      refine ⟨inv.space.releases releases outside, releases.total_eq.trans inv.total_eq, ?_⟩
      rintro frame ⟨held, different⟩
      rcases inv.handed frame held with ⟨frameBound, frameUsed, frameOutside⟩
      exact ⟨frameBound, (releases.used_iff frame).mpr ⟨frameUsed, different⟩, frameOutside⟩
  | write mem bitmap =>
      refine ⟨inv.space.congr rfl bitmap, inv.total_eq, ?_⟩
      intro frame held
      rcases inv.handed frame held with ⟨bound, used, outside⟩
      refine ⟨bound, ?_, outside⟩
      exact (@used_congr c.phys { c.phys with mem := mem } rfl bitmap frame
        (by rw [inv.total_eq]; exact bound)).mpr used

end Steps

section Boot

variable {ramSize kernelEnd : Nat}

theorem Custody.Reachable.inv {s : PhysState} {c : Custody} (bound : ramSize < 2 ^ 64)
    (image : 0 < kernelEnd) (fits : ImageFits ramSize kernelEnd)
    (reachable : Custody.Reachable (setupPmm ramSize kernelEnd s) c) :
    CustodyInv c 0 (ramSize / pageSize) {frame | frame < reservedFrames ramSize kernelEnd} := by
  induction reachable with
  | boot =>
      exact ⟨frameSpace_setupPmm s bound image fits, (setupPmm_spec s bound kernelEnd).2.1,
        fun _ held => absurd held (Set.notMem_empty _)⟩
  | step _ step inductionHypothesis => exact inductionHypothesis.step step

/-- A result of an allocator that is not 0 starts behind the bitmap and ends in
memory; a result of 0 comes with the unchanged state. -/
def GrantsOrFails (ramSize kernelEnd frameCount : Nat) (before : PhysState)
    (result : Nat × PhysState) : Prop :=
  (result.1 = 0 → result.2 = before) ∧
  (result.1 ≠ 0 → bitmapPhys kernelEnd + bitmapSize (ramSize / pageSize) ≤ result.1 ∧
    result.1 + frameCount * pageSize ≤ ramSize)

theorem grants_of_takes {start frameCount : Nat} {before : PhysState} {result : Nat × PhysState}
    (fits : ImageFits ramSize kernelEnd) (nonzero : start ≠ 0)
    (notReserved : start ∉ {frame | frame < reservedFrames ramSize kernelEnd})
    (address : result.1 = start * pageSize) (bound : start + frameCount ≤ ramSize / pageSize) :
    GrantsOrFails ramSize kernelEnd frameCount before result := by
  have covers := (reserved_cover fits).2
  have behind : reservedFrames ramSize kernelEnd ≤ start := Nat.not_lt.mp notReserved
  have place := Nat.mul_le_mul_right pageSize behind
  have positive : start * pageSize ≠ 0 := Nat.mul_ne_zero nonzero (by decide)
  constructor
  · intro null
    exact absurd (address.symm.trans null) positive
  · intro _
    rw [address]
    unfold pageSize at *
    omega

/-- After boot, in any run of allocations, releases and writes, every frame that
is handed out lies behind the image and the bitmap, so that a result of 0 always
means failure, and a failing call changes nothing. -/
theorem reservation_effective {s : PhysState} {c : Custody} (bound : ramSize < 2 ^ 64)
    (image : 0 < kernelEnd) (fits : ImageFits ramSize kernelEnd)
    (reachable : Custody.Reachable (setupPmm ramSize kernelEnd s) c) :
    GrantsOrFails ramSize kernelEnd 1 c.phys (pmmAllocFrame c.phys) ∧
      ∀ frameCount, GrantsOrFails ramSize kernelEnd frameCount c.phys
        (pmmAllocContiguous frameCount c.phys) := by
  have inv := reachable.inv bound image fits
  constructor
  · rcases inv.space.allocFrame with
      ⟨failed, _⟩ | ⟨frame, inMemory, _, notReserved, nonzero, address, _⟩
    · rw [failed]
      exact ⟨fun _ => rfl, fun nonzero => absurd rfl nonzero⟩
    · rw [inv.total_eq] at inMemory
      exact grants_of_takes fits nonzero notReserved address inMemory
  · intro frameCount
    rcases inv.space.allocContiguous frameCount with
      failed | ⟨start, positive, inMemory, nonzero, free, address, _⟩
    · rw [failed]
      exact ⟨fun _ => rfl, fun nonzero => absurd rfl nonzero⟩
    · rw [inv.total_eq] at inMemory
      have notReserved := (free start (Nat.le_refl _) (by omega)).2
      exact grants_of_takes fits nonzero notReserved address inMemory

/-- A machine of eight frames whose image ends in the first one: the frames 0
and 1 are reserved, the first allocation hands out frame 2. -/
theorem reservation_effective_small :
    (pmmAllocFrame (setupPmm 32768 4000 ⟨fun _ => 0, ⟨0, 0, 0, 0⟩⟩)).1 = 8192 ∧
      bitmapPhys 4000 + bitmapSize (32768 / pageSize) ≤ 8192 := by
  have first : (pmmAllocFrame (setupPmm 32768 4000 ⟨fun _ => 0, ⟨0, 0, 0, 0⟩⟩)).1 = 8192 := by
    decide +kernel
  have effective := @reservation_effective 32768 4000 ⟨fun _ => 0, ⟨0, 0, 0, 0⟩⟩ _ (by decide)
    (by decide) (imageFits_of_le (by decide) (by decide)) Custody.Reachable.boot
  refine ⟨first, ?_⟩
  have grants := (effective.1.2 (by rw [first]; decide)).1
  rw [first] at grants
  exact grants

end Boot

end Physical
end AuraKernel
