import AuraKernel.Physical.Pmm

namespace AuraKernel
namespace Physical

open Machine

/-!
# What one call of the physical memory manager does

The invariant couples the three pieces of state the C code keeps in step: the
bitmap, the counter of used frames and the allocation hint.  Each operation is
then described by its effect on the set of used frames alone, and by the bytes
it may write, which are bitmap bytes only.  The clients of the manager (heap,
slab zones, page tables) reason with these descriptions and never look at the
scan loops again.
-/

/-- A frame is free when its bit is clear. -/
def PhysState.Free (s : PhysState) (frame : Nat) : Prop := s.bitmapTest frame = false

/-- A frame is used when its bit is set. -/
def PhysState.Used (s : PhysState) (frame : Nat) : Prop := s.bitmapTest frame = true

instance PhysState.decidableFree (s : PhysState) : DecidablePred s.Free :=
  fun frame => inferInstanceAs (Decidable (s.bitmapTest frame = false))

instance PhysState.decidableUsed (s : PhysState) : DecidablePred s.Used :=
  fun frame => inferInstanceAs (Decidable (s.bitmapTest frame = true))

theorem PhysState.not_free_iff (s : PhysState) (frame : Nat) : ¬ s.Free frame ↔ s.Used frame := by
  unfold PhysState.Free PhysState.Used
  cases s.bitmapTest frame <;> simp

theorem PhysState.not_used_iff (s : PhysState) (frame : Nat) : ¬ s.Used frame ↔ s.Free frame := by
  rw [← s.not_free_iff, not_not]

def PhysState.bitmapBytes (s : PhysState) : Set Nat :=
  Set.Ico s.pmm.bitmap (s.pmm.bitmap + bitmapSize s.pmm.totalFrames)

structure PmmInv (s : PhysState) : Prop where
  total_le : s.pmm.totalFrames ≤ 2 ^ 52
  hint_le : s.pmm.allocHint ≤ s.pmm.totalFrames
  below_hint : ∀ frame, frame < s.pmm.allocHint → s.Used frame
  used_eq : s.pmm.usedFrames = Nat.count s.Used s.pmm.totalFrames

/-! ## Single bits -/

@[simp] theorem bitmapSet_pmm (s : PhysState) (bit : Nat) : (s.bitmapSet bit).pmm = s.pmm := rfl

@[simp] theorem bitmapClear_pmm (s : PhysState) (bit : Nat) : (s.bitmapClear bit).pmm = s.pmm := rfl

/-- The bits depend on the memory and the bitmap address only. -/
theorem bitmapTest_congr {first second : PhysState} (mem : first.mem = second.mem)
    (base : first.pmm.bitmap = second.pmm.bitmap) (bit : Nat) :
    first.bitmapTest bit = second.bitmapTest bit := by
  unfold PhysState.bitmapTest
  rw [mem, base]

theorem bitmapTest_bitmapSet (s : PhysState) (bit other : Nat) :
    (s.bitmapSet bit).bitmapTest other = (s.bitmapTest other || decide (other = bit)) :=
  bitTest_bitSet s.mem s.pmm.bitmap bit other

theorem bitmapTest_bitmapClear (s : PhysState) (bit other : Nat) :
    (s.bitmapClear bit).bitmapTest other = (s.bitmapTest other && !decide (other = bit)) :=
  bitTest_bitClear s.mem s.pmm.bitmap bit other

theorem bit_byte_mem (base : Nat) {total frame : Nat} (bound : frame < total) :
    base + frame / 8 ∈ Set.Ico base (base + bitmapSize total) := by
  unfold bitmapSize
  constructor
  · omega
  · omega

theorem bitmapSet_mem_of_not_mem {s : PhysState} {frame place : Nat}
    (bound : frame < s.pmm.totalFrames) (outside : place ∉ s.bitmapBytes) :
    (s.bitmapSet frame).mem place = s.mem place :=
  bitSet_apply_of_ne (fun same => outside (same ▸ bit_byte_mem _ bound))

theorem bitmapClear_mem_of_not_mem {s : PhysState} {frame place : Nat}
    (bound : frame < s.pmm.totalFrames) (outside : place ∉ s.bitmapBytes) :
    (s.bitmapClear frame).mem place = s.mem place :=
  bitClear_apply_of_ne (fun same => outside (same ▸ bit_byte_mem _ bound))

/-! ## The scans -/

theorem scanBits_eq_some {s : PhysState} {count i frame : Nat}
    (found : scanBits s count i = some frame) : FirstIn s.Free i (i + count) frame := by
  induction count generalizing i with
  | zero => simp [scanBits] at found
  | succ count inductionHypothesis =>
      rw [scanBits] at found
      by_cases free : s.bitmapTest i = false
      · rw [if_pos free] at found
        have same : i = frame := Option.some.inj found
        subst same
        exact ⟨Nat.le_refl _, by omega, free, fun earlier low less => by omega⟩
      · rw [if_neg free] at found
        have tail := inductionHypothesis found
        have shifted : i + 1 + count = i + (count + 1) := by omega
        rw [shifted] at tail
        refine tail.extend (Nat.le_succ i) ?_
        intro position low high
        have same : position = i := by omega
        subst same
        exact free

theorem scanBits_eq_none {s : PhysState} {count i : Nat} (missing : scanBits s count i = none) :
    ∀ frame, i ≤ frame → frame < i + count → s.Used frame := by
  induction count generalizing i with
  | zero => intro frame low high; omega
  | succ count inductionHypothesis =>
      rw [scanBits] at missing
      by_cases free : s.bitmapTest i = false
      · rw [if_pos free] at missing
        cases missing
      · rw [if_neg free] at missing
        intro frame low high
        by_cases head : frame = i
        · subst head
          exact (s.not_free_iff _).mp free
        · exact inductionHypothesis missing frame (by omega) (by omega)

/-- One word: its value decides which of its 64 frames is the first free one. -/
theorem word_full_iff (s : PhysState) (w : Nat) :
    s.mem.load64 (s.pmm.bitmap + 8 * w) = 2 ^ 64 - 1 ↔
      ∀ frame, w * 64 ≤ frame → frame < w * 64 + 64 → s.Used frame := by
  constructor
  · intro full frame low high
    have inside : frame - w * 64 < 64 := by omega
    have bit : (s.mem.load64 (s.pmm.bitmap + 8 * w)).testBit (frame - w * 64) =
        bitTest s.mem s.pmm.bitmap (w * 64 + (frame - w * 64)) := testBit_load64 inside
    rw [full, Nat.testBit_two_pow_sub_one, Nat.add_sub_cancel' low] at bit
    simp only [inside, decide_true] at bit
    exact bit.symm
  · intro used
    apply Nat.eq_of_testBit_eq
    intro index
    rw [Nat.testBit_two_pow_sub_one]
    by_cases inside : index < 64
    · rw [testBit_load64 inside]
      simp only [inside, decide_true]
      exact used (w * 64 + index) (by omega) (by omega)
    · simp only [inside, decide_false]
      have large : 2 ^ 64 ≤ 2 ^ index := Nat.pow_le_pow_right (by decide) (by omega)
      exact Nat.testBit_lt_two_pow (Nat.lt_of_lt_of_le (Mem.load64_lt _ _) large)

theorem word_first_free {s : PhysState} {w : Nat}
    (notFull : s.mem.load64 (s.pmm.bitmap + 8 * w) ≠ 2 ^ 64 - 1) :
    FirstIn s.Free (w * 64) (w * 64 + 64)
      (w * 64 + ctzll (not64 (s.mem.load64 (s.pmm.bitmap + 8 * w)))) := by
  have lowest := ctzll_not64 (Mem.load64_lt s.mem (s.pmm.bitmap + 8 * w)) notFull
  refine ⟨Nat.le_add_right _ _, by omega, ?_, ?_⟩
  · have bit := lowest.2.1
    rw [testBit_load64 lowest.1] at bit
    exact bit
  · intro earlier low less
    rw [s.not_free_iff]
    have bit := lowest.2.2 (earlier - w * 64) (by omega)
    rw [testBit_load64 (by omega), Nat.add_sub_cancel' low] at bit
    exact bit

theorem scanWords_eq_some {s : PhysState} {count w frame : Nat}
    (inside : (w + count) * 64 ≤ s.pmm.totalFrames) (found : scanWords s count w = some frame) :
    FirstIn s.Free (w * 64) ((w + count) * 64) frame := by
  induction count generalizing w with
  | zero => simp [scanWords] at found
  | succ count inductionHypothesis =>
      rw [scanWords] at found
      by_cases notFull : s.mem.load64 (s.pmm.bitmap + 8 * w) ≠ 2 ^ 64 - 1
      · have first := word_first_free notFull
        have high := first.lt_high
        have bounded : w * 64 + ctzll (not64 (s.mem.load64 (s.pmm.bitmap + 8 * w))) <
            s.pmm.totalFrames := by omega
        simp only [if_pos notFull, if_pos bounded, Option.some.injEq] at found
        rw [found] at first
        exact ⟨first.low_le, by have := first.lt_high; omega, first.sound, first.least⟩
      · simp only [if_neg notFull] at found
        have tail := inductionHypothesis (w := w + 1) (by omega) found
        have shifted : w + 1 + count = w + (count + 1) := by omega
        rw [shifted] at tail
        refine tail.extend (by omega) ?_
        intro position low high
        rw [s.not_free_iff]
        exact (word_full_iff s w).mp (not_not.mp notFull) position low (by omega)

theorem scanWords_eq_none {s : PhysState} {count w : Nat}
    (inside : (w + count) * 64 ≤ s.pmm.totalFrames) (missing : scanWords s count w = none) :
    ∀ frame, w * 64 ≤ frame → frame < (w + count) * 64 → s.Used frame := by
  induction count generalizing w with
  | zero => intro frame low high; omega
  | succ count inductionHypothesis =>
      rw [scanWords] at missing
      by_cases notFull : s.mem.load64 (s.pmm.bitmap + 8 * w) ≠ 2 ^ 64 - 1
      · have high := (word_first_free notFull).lt_high
        have bounded : w * 64 + ctzll (not64 (s.mem.load64 (s.pmm.bitmap + 8 * w))) <
            s.pmm.totalFrames := by omega
        simp only [if_pos notFull, if_pos bounded] at missing
        cases missing
      · simp only [if_neg notFull] at missing
        intro frame low high
        by_cases head : frame < w * 64 + 64
        · exact (word_full_iff s w).mp (not_not.mp notFull) frame low head
        · exact inductionHypothesis (w := w + 1) (by omega) missing frame (by omega) (by omega)

/-- The three phases together find the lowest free frame of all. -/
theorem selectFrame_eq_some {s : PhysState} (inv : PmmInv s) {frame : Nat}
    (found : selectFrame s = some frame) : FirstIn s.Free 0 s.pmm.totalFrames frame := by
  have hintLe := inv.hint_le
  have skipped : ∀ position, 0 ≤ position → position < s.pmm.allocHint / 64 * 64 →
      ¬ s.Free position := by
    intro position _ less
    rw [s.not_free_iff]
    exact inv.below_hint position (by omega)
  unfold selectFrame at found
  dsimp only at found
  cases phase1 : scanWords s (s.pmm.totalFrames / 64 - s.pmm.allocHint / 64)
      (s.pmm.allocHint / 64) with
  | some first =>
      rw [phase1] at found
      cases found
      have high : (s.pmm.allocHint / 64 + (s.pmm.totalFrames / 64 - s.pmm.allocHint / 64)) * 64 ≤
          s.pmm.totalFrames := by omega
      have firstIn := (scanWords_eq_some high phase1).extend (Nat.zero_le _) skipped
      exact ⟨firstIn.low_le, by have := firstIn.lt_high; omega, firstIn.sound, firstIn.least⟩
  | none =>
      rw [phase1] at found
      cases phase2 : scanWords s (s.pmm.allocHint / 64) 0 with
      | some second =>
          -- the words before the hint are full, so phase 2 never succeeds
          have firstIn := scanWords_eq_some (by omega) phase2
          refine absurd firstIn.sound (skipped second (Nat.zero_le _) ?_)
          have := firstIn.lt_high
          omega
      | none =>
          rw [phase2] at found
          have firstIn := scanBits_eq_some found
          have high : s.pmm.totalFrames / 64 * 64 +
              (s.pmm.totalFrames - s.pmm.totalFrames / 64 * 64) = s.pmm.totalFrames := by omega
          rw [high] at firstIn
          refine firstIn.extend (Nat.zero_le _) ?_
          intro position _ less
          by_cases before : position < s.pmm.allocHint / 64 * 64
          · exact skipped position (Nat.zero_le _) before
          · rw [s.not_free_iff]
            exact scanWords_eq_none (by omega) phase1 position (by omega) (by omega)

theorem selectFrame_eq_none {s : PhysState} (inv : PmmInv s) (missing : selectFrame s = none) :
    ∀ frame, frame < s.pmm.totalFrames → s.Used frame := by
  have hintLe := inv.hint_le
  unfold selectFrame at missing
  dsimp only at missing
  cases phase1 : scanWords s (s.pmm.totalFrames / 64 - s.pmm.allocHint / 64)
      (s.pmm.allocHint / 64) with
  | some first => rw [phase1] at missing; cases missing
  | none =>
      rw [phase1] at missing
      cases phase2 : scanWords s (s.pmm.allocHint / 64) 0 with
      | some second => rw [phase2] at missing; cases missing
      | none =>
          rw [phase2] at missing
          intro frame bound
          by_cases before : frame < s.pmm.allocHint
          · exact inv.below_hint frame before
          · by_cases word : frame < s.pmm.totalFrames / 64 * 64
            · exact scanWords_eq_none (by omega) phase1 frame (by omega) (by omega)
            · exact scanBits_eq_none missing frame (by omega) (by omega)

/-- The counter says that memory is exhausted exactly when it is. -/
theorem usedFrames_ge_iff {s : PhysState} (inv : PmmInv s) :
    s.pmm.usedFrames ≥ s.pmm.totalFrames ↔ ∀ frame, frame < s.pmm.totalFrames → s.Used frame := by
  have atMost : Nat.count s.Used s.pmm.totalFrames ≤ s.pmm.totalFrames := Nat.count_le _
  rw [inv.used_eq, ge_iff_le]
  constructor
  · intro le
    exact Nat.count_iff_forall.mp (Nat.le_antisymm atMost le)
  · intro used
    exact Nat.le_of_eq (Nat.count_iff_forall.mpr used).symm

theorem usedFrames_le {s : PhysState} (inv : PmmInv s) : s.pmm.usedFrames ≤ s.pmm.totalFrames := by
  rw [inv.used_eq]
  exact Nat.count_le _

end Physical
end AuraKernel
