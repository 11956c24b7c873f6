import AuraKernel.Physical.PmmEffect

namespace AuraKernel
namespace Physical

open Machine

/-!
# The word scan against the plain scan

`pmm_alloc_frame` replaced a bit-by-bit scan from frame 0 by a hint and a
three-phase scan of 64-bit words.  The two agree only because no free frame
ever lies below the hint, and the early exit on the counter is right only
because the counter is exact.  Both are part of `PmmInv`, which every call of
the manager preserves, in any order and with any arguments.
-/

/-! ## Reachable states -/

theorem pmmInit_free {memSize bitmapBase frame : Nat} {s : PhysState}
    (bound : frame < memSize / pageSize) : (pmmInit memSize bitmapBase s).Free frame := by
  have inside := Set.mem_Ico.mp (bit_byte_mem bitmapBase bound)
  have zero : (pmmInit memSize bitmapBase s).mem (bitmapBase + frame / 8) = 0 := by
    unfold pmmInit
    dsimp only
    rw [Mem.fill_apply, if_pos inside]
  change (bitTest (pmmInit memSize bitmapBase s).mem bitmapBase frame) = false
  rw [bitTest_eq_testBit, zero]
  exact Nat.zero_testBit _

theorem pmmInit_inv {memSize : Nat} (bound : memSize < 2 ^ 64) (bitmapBase : Nat) (s : PhysState) :
    PmmInv (pmmInit memSize bitmapBase s) where
  total_le := by
    change memSize / pageSize ≤ 2 ^ 52
    unfold pageSize
    omega
  hint_le := Nat.zero_le _
  below_hint := fun frame less => absurd less (Nat.not_lt_zero frame)
  used_eq := by
    have noneUsed : ∀ frame, frame < (pmmInit memSize bitmapBase s).pmm.totalFrames →
        ¬ (pmmInit memSize bitmapBase s).Used frame :=
      fun frame less => (PhysState.not_used_iff _ _).mpr (pmmInit_free less)
    exact (Nat.count_iff_forall_not.mpr noneUsed).symm

/-- The states the manager can be in: any sequence of calls after `pmm_init`. -/
inductive PmmReachable : PhysState → Prop
  | init (memSize bitmapBase : Nat) (s : PhysState) (bound : memSize < 2 ^ 64) :
      PmmReachable (pmmInit memSize bitmapBase s)
  | markUsed {s : PhysState} (paddr : Nat) : PmmReachable s → PmmReachable (pmmMarkUsed paddr s)
  | markFree {s : PhysState} (paddr : Nat) : PmmReachable s → PmmReachable (pmmMarkFree paddr s)
  | freeFrame {s : PhysState} (paddr : Nat) : PmmReachable s → PmmReachable (pmmFreeFrame paddr s)
  | allocFrame {s : PhysState} : PmmReachable s → PmmReachable (pmmAllocFrame s).2
  | allocContiguous {s : PhysState} (frameCount : Nat) :
      PmmReachable s → PmmReachable (pmmAllocContiguous frameCount s).2

theorem pmmAllocContiguous_inv {s : PhysState} (inv : PmmInv s) (frameCount : Nat) :
    PmmInv (pmmAllocContiguous frameCount s).2 := by
  rcases pmmAllocContiguous_cases inv frameCount with ⟨failed, _⟩ | ⟨_, _, _, _, _, _, takes⟩
  · rw [failed]
    exact inv
  · exact takes.inv

theorem PmmReachable.inv {s : PhysState} (reachable : PmmReachable s) : PmmInv s := by
  induction reachable with
  | init memSize bitmapBase s bound => exact pmmInit_inv bound bitmapBase s
  | markUsed paddr _ inductionHypothesis => exact (pmmMarkUsed_effect inductionHypothesis paddr).inv
  | markFree paddr _ inductionHypothesis => exact pmmMarkFree_inv inductionHypothesis paddr
  | freeFrame paddr _ inductionHypothesis => exact pmmMarkFree_inv inductionHypothesis paddr
  | allocFrame _ inductionHypothesis => exact pmmAllocFrame_inv inductionHypothesis
  | allocContiguous frameCount _ inductionHypothesis =>
      exact pmmAllocContiguous_inv inductionHypothesis frameCount

/-! ## Agreement -/

theorem scanBits_all_eq_some_iff (s : PhysState) (frame : Nat) :
    scanBits s s.pmm.totalFrames 0 = some frame ↔ FirstIn s.Free 0 s.pmm.totalFrames frame := by
  constructor
  · intro found
    have first := scanBits_eq_some found
    rw [Nat.zero_add] at first
    exact first
  · intro first
    cases scanned : scanBits s s.pmm.totalFrames 0 with
    | none =>
        have used := scanBits_eq_none scanned frame (Nat.zero_le _) (by
          rw [Nat.zero_add]
          exact first.lt_high)
        exact absurd first.sound ((s.not_free_iff frame).mpr used)
    | some other =>
        have otherFirst := scanBits_eq_some scanned
        rw [Nat.zero_add] at otherFirst
        rw [otherFirst.unique first]

theorem scanBits_all_eq_none_iff (s : PhysState) :
    scanBits s s.pmm.totalFrames 0 = none ↔ ∀ frame, frame < s.pmm.totalFrames → s.Used frame := by
  constructor
  · intro missing frame bound
    exact scanBits_eq_none missing frame (Nat.zero_le _) (by omega)
  · intro used
    cases scanned : scanBits s s.pmm.totalFrames 0 with
    | none => rfl
    | some frame =>
        have first := (scanBits_all_eq_some_iff s frame).mp scanned
        exact absurd first.sound ((s.not_free_iff frame).mpr (used frame first.lt_high))

/-- Taking a frame is visible in the counter, so success and failure differ
even where frame 0 makes both return address 0. -/
theorem takeFrame_ne {s : PhysState} (inv : PmmInv s) (frame : Nat) :
    (takeFrame frame s).2 ≠ s := by
  intro same
  have totalLe := inv.total_le
  have usedLe := usedFrames_le inv
  have counter : wrap64 (s.pmm.usedFrames + 1) = s.pmm.usedFrames :=
    congrArg (fun state : PhysState => state.pmm.usedFrames) same
  rw [wrap64_of_lt (by omega)] at counter
  omega

theorem allocFrame_agrees {s : PhysState} (inv : PmmInv s) :
    pmmAllocFrame s = plainAllocFrame s := by
  unfold plainAllocFrame
  rcases pmmAllocFrame_cases inv with ⟨failed, used⟩ | ⟨frame, first, taken, _⟩
  · rw [(scanBits_all_eq_none_iff s).mpr used]
    exact failed
  · rw [(scanBits_all_eq_some_iff s frame).mpr first]
    exact taken

theorem allocFrame_fails_iff {s : PhysState} (inv : PmmInv s) :
    pmmAllocFrame s = (0, s) ↔ scanBits s s.pmm.totalFrames 0 = none := by
  constructor
  · intro failed
    rcases pmmAllocFrame_cases inv with ⟨_, used⟩ | ⟨frame, _, taken, _⟩
    · exact (scanBits_all_eq_none_iff s).mpr used
    · exact absurd (congrArg Prod.snd (taken.symm.trans failed)) (takeFrame_ne inv frame)
  · intro missing
    rw [allocFrame_agrees inv, plainAllocFrame, missing]

/-- What a call returns that hands out `frame`: the address of the frame, and a state in which
exactly its bit is new and nothing outside the bitmap is written. -/
structure Picks (s : PhysState) (frame : Nat) (result : Nat × PhysState) : Prop where
  address : result.1 = frame * pageSize
  used_iff : ∀ other, result.2.Used other ↔ s.Used other ∨ other = frame
  mem_eq : ∀ place, place ∉ s.bitmapBytes → result.2.mem place = s.mem place

theorem picks_of_first {s : PhysState} (inv : PmmInv s) {frame : Nat}
    (first : FirstIn s.Free 0 s.pmm.totalFrames frame) : Picks s frame (pmmAllocFrame s) := by
  rcases pmmAllocFrame_cases inv with ⟨_, used⟩ | ⟨other, otherFirst, taken, takes⟩
  · exact absurd first.sound ((s.not_free_iff frame).mpr (used frame first.lt_high))
  · cases otherFirst.unique first
    constructor
    case address => rw [taken, takeFrame]
    case used_iff => exact takes.used_iff
    case mem_eq => exact takes.mem_eq

/-- In every reachable state the word scan takes the frame that the plain scan from frame 0
finds, which is the lowest free one: it returns the address of that frame and sets its bit and
no other.  It fails exactly when the plain scan finds nothing.  This rests on the hint, below
which every frame is in use. -/
theorem pmmAllocFrame_eq_plainAllocFrame {s : PhysState} (reachable : PmmReachable s) :
    pmmAllocFrame s = plainAllocFrame s ∧
      (pmmAllocFrame s = (0, s) ↔ scanBits s s.pmm.totalFrames 0 = none) ∧
      (∀ frame, scanBits s s.pmm.totalFrames 0 = some frame ↔
        FirstIn s.Free 0 s.pmm.totalFrames frame) ∧
      (∀ frame, FirstIn s.Free 0 s.pmm.totalFrames frame →
        pmmAllocFrame s = takeFrame frame s ∧ Picks s frame (pmmAllocFrame s)) ∧
      ∀ frame, frame < s.pmm.allocHint → s.Used frame := by
  have inv := reachable.inv
  refine ⟨allocFrame_agrees inv, allocFrame_fails_iff inv, scanBits_all_eq_some_iff s, ?_,
    inv.below_hint⟩
  intro frame first
  refine ⟨?_, picks_of_first inv first⟩
  rw [allocFrame_agrees inv, plainAllocFrame, (scanBits_all_eq_some_iff s frame).mpr first]

/-- A machine of 70 frames (one whole word and six trailing bits) whose bitmap is at address 0,
after one allocation: the next one hands out frame 1. -/
theorem pmmAllocFrame_eq_plainAllocFrame_seventy :
    let s := (pmmAllocFrame (pmmInit (70 * 4096) 0 ⟨fun _ => 0, ⟨0, 0, 0, 0⟩⟩)).2
    pmmAllocFrame s = plainAllocFrame s ∧ scanBits s s.pmm.totalFrames 0 = some 1 ∧
      Picks s 1 (pmmAllocFrame s) := by
  intro s
  have found : scanBits s s.pmm.totalFrames 0 = some 1 := by decide +kernel
  rcases pmmAllocFrame_eq_plainAllocFrame (PmmReachable.allocFrame
    (PmmReachable.init (70 * 4096) 0 ⟨fun _ => 0, ⟨0, 0, 0, 0⟩⟩ (by decide))) with
    ⟨agrees, _, first, picks, _⟩
  exact ⟨agrees, found, (picks 1 ((first 1).mp found)).2⟩

end Physical
end AuraKernel
