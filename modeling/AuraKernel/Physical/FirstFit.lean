import AuraKernel.Physical.PmmEffect

namespace AuraKernel
namespace Physical

open Machine

/-!
# First fit

`pmm_alloc_contiguous` counts free frames in one pass and starts over at every
used one.  Whatever the bitmap looks like, this finds the lowest run that is
long enough, and the call then changes the bits of that run and the count of
used frames and nothing else.
-/

/-- `frameCount` free frames of the manager lie one behind the other from `start` on. -/
def FreeRun (s : PhysState) (frameCount start : Nat) : Prop :=
  start + frameCount ≤ s.pmm.totalFrames ∧ Run s.Free frameCount start

structure LowestRun (s : PhysState) (frameCount start : Nat) : Prop where
  free : FreeRun s frameCount start
  lowest : ∀ lower, lower < start → ¬ FreeRun s frameCount lower

/-- `after` is `before` with exactly the bits of one run set, and the run counted. -/
structure MarksRun (before after : PhysState) (frameCount start : Nat) : Prop where
  bits : ∀ bit, after.bitmapTest bit =
    (before.bitmapTest bit || decide (start ≤ bit ∧ bit < start + frameCount))
  mem_eq : ∀ place, place ∉ before.bitmapBytes → after.mem place = before.mem place
  usedFrames : after.pmm.usedFrames = wrap64 (before.pmm.usedFrames + frameCount)
  others : after.pmm.bitmap = before.pmm.bitmap ∧
    after.pmm.totalFrames = before.pmm.totalFrames ∧ after.pmm.allocHint = before.pmm.allocHint

section Calls

variable {s : PhysState} {frameCount : Nat}

theorem marksRun_of_freeRun {start : Nat} (free : FreeRun s frameCount start) :
    MarksRun s { bitmapSetRange start frameCount s with
      pmm := { (bitmapSetRange start frameCount s).pmm with
        usedFrames := wrap64 ((bitmapSetRange start frameCount s).pmm.usedFrames + frameCount) } }
      frameCount start where
  bits := bitmapTest_bitmapSetRange start frameCount s
  mem_eq := fun _ outside => bitmapSetRange_mem_of_not_mem free.1 outside
  usedFrames := by rw [bitmapSetRange_pmm]
  others := by
    rw [bitmapSetRange_pmm]
    exact ⟨rfl, rfl, rfl⟩

/-- In every state, `pmm_alloc_contiguous` takes the lowest run of free frames
that is long enough; if there is none, it returns 0 and changes nothing. -/
theorem pmmAllocContiguous_firstFit (s : PhysState) (positive : 0 < frameCount) :
    ((∃ start, FreeRun s frameCount start) →
      ∃ start, LowestRun s frameCount start ∧
        (pmmAllocContiguous frameCount s).1 = start * pageSize ∧
        MarksRun s (pmmAllocContiguous frameCount s).2 frameCount start) ∧
    ((∀ start, ¬ FreeRun s frameCount start) → pmmAllocContiguous frameCount s = (0, s)) := by
  have nonzero : frameCount ≠ 0 := Nat.ne_of_gt positive
  have spec := @scanRun_all s frameCount nonzero
  unfold pmmAllocContiguous
  rw [if_neg nonzero]
  cases found : scanRun s frameCount s.pmm.totalFrames 0 0 0 with
  | none =>
      rw [found] at spec
      constructor
      · rintro ⟨start, fits, run⟩
        exact absurd run (spec start fits)
      · exact fun _ => rfl
  | some start =>
      rw [found] at spec
      rcases spec with ⟨run, fits, lowest⟩
      have free : FreeRun s frameCount start := ⟨fits, run⟩
      constructor
      · intro _
        refine ⟨start, ⟨free, ?_⟩, rfl, marksRun_of_freeRun free⟩
        exact fun lower less earlier => lowest lower less earlier.2
      · exact fun none => absurd free (none start)

/-- Three frames are wanted and one of five is used: the run behind it is taken,
and there is no run of four. -/
theorem pmmAllocContiguous_firstFit_three :
    let s : PhysState := ⟨fun _ => 2, ⟨0, 5, 1, 0⟩⟩
    (∃ start, LowestRun s 3 start ∧ (pmmAllocContiguous 3 s).1 = start * pageSize ∧
        MarksRun s (pmmAllocContiguous 3 s).2 3 start) ∧
      (pmmAllocContiguous 3 s).1 = 2 * pageSize ∧ (pmmAllocContiguous 4 s).1 = 0 := by
  intro s
  refine ⟨(pmmAllocContiguous_firstFit s (by decide)).1 ⟨2, by decide, ?_⟩, by decide, by decide⟩
  intro position low high
  have cases : position = 2 ∨ position = 3 ∨ position = 4 := by omega
  unfold PhysState.Free
  rcases cases with rfl | rfl | rfl
  all_goals decide

end Calls

end Physical
end AuraKernel
