import AuraKernel.Physical.Reservation

namespace AuraKernel
namespace Physical

open Machine

/-!
# The bookkeeping of the manager

The counter, the hint and the bitmap stay in step through any sequence of
calls, the bits behind the last frame stay clear, and the figures of the three
getters add up.  That a call reads no byte outside the bitmap is stated by
replacing all other memory: neither the result nor the bitmap that the call
leaves behind can tell the difference.
-/

/-- The calls that change the manager. -/
inductive PmmCall where
  | markUsed (paddr : Nat)
  | markFree (paddr : Nat)
  | freeFrame (paddr : Nat)
  | allocFrame
  | allocContiguous (frameCount : Nat)
deriving DecidableEq, Repr

/-- The call with its result, which is 0 for a call that returns nothing. -/
def PmmCall.run : PmmCall → PhysState → Nat × PhysState
  | markUsed paddr, s => (0, pmmMarkUsed paddr s)
  | markFree paddr, s => (0, pmmMarkFree paddr s)
  | freeFrame paddr, s => (0, pmmFreeFrame paddr s)
  | allocFrame, s => pmmAllocFrame s
  | allocContiguous frameCount, s => pmmAllocContiguous frameCount s

/-- Two states of one manager that may differ in the memory outside the bitmap. -/
structure SameBitmap (s s' : PhysState) : Prop where
  pmm : s'.pmm = s.pmm
  bytes : ∀ place ∈ s.bitmapBytes, s'.mem place = s.mem place

namespace SameBitmap

variable {s s' : PhysState}

theorem test (same : SameBitmap s s') {bit : Nat} (bound : bit < s.pmm.totalFrames) :
    s'.bitmapTest bit = s.bitmapTest bit := by
  have byte := same.bytes _ (bit_byte_mem s.pmm.bitmap bound)
  unfold PhysState.bitmapTest
  rw [same.pmm, bitTest_eq_testBit, bitTest_eq_testBit, byte]

theorem set (same : SameBitmap s s') {bit : Nat} (bound : bit < s.pmm.totalFrames) :
    SameBitmap (s.bitmapSet bit) (s'.bitmapSet bit) where
  pmm := same.pmm
  bytes := fun place inside => by
    have byte := same.bytes _ (bit_byte_mem s.pmm.bitmap bound)
    have other := same.bytes place inside
    unfold PhysState.bitmapSet bitSet
    rw [same.pmm]
    simp only [Mem.store8, byte, other]

theorem clear (same : SameBitmap s s') {bit : Nat} (bound : bit < s.pmm.totalFrames) :
    SameBitmap (s.bitmapClear bit) (s'.bitmapClear bit) where
  pmm := same.pmm
  bytes := fun place inside => by
    have byte := same.bytes _ (bit_byte_mem s.pmm.bitmap bound)
    have other := same.bytes place inside
    unfold PhysState.bitmapClear bitClear
    rw [same.pmm]
    simp only [Mem.store8, byte, other]

/-- The same update of the counter and the hint on both sides. -/
theorem withPmm (same : SameBitmap s s') {pmm : Pmm} (bitmap : pmm.bitmap = s.pmm.bitmap)
    (total : pmm.totalFrames = s.pmm.totalFrames) :
    SameBitmap { s with pmm := pmm } { s' with pmm := pmm } where
  pmm := rfl
  bytes := fun place inside => by
    unfold PhysState.bitmapBytes at inside
    rw [bitmap, total] at inside
    exact same.bytes place inside

theorem scanBits_eq (same : SameBitmap s s') {count i : Nat}
    (bound : i + count ≤ s.pmm.totalFrames) : scanBits s' count i = scanBits s count i := by
  induction count generalizing i with
  | zero => rfl
  | succ count inductionHypothesis =>
      rw [scanBits, scanBits, same.test (by omega), inductionHypothesis (by omega)]

/-- The words of the scan lie in the bitmap. -/
theorem word_eq (same : SameBitmap s s') {w : Nat} (bound : w < s.pmm.totalFrames / 64) :
    s'.mem.load64 (s.pmm.bitmap + 8 * w) = s.mem.load64 (s.pmm.bitmap + 8 * w) := by
  refine Mem.load64_congr fun place low high => same.bytes place ?_
  unfold PhysState.bitmapBytes bitmapSize
  rw [Set.mem_Ico]
  omega

theorem scanWords_eq (same : SameBitmap s s') {count w : Nat}
    (bound : w + count ≤ s.pmm.totalFrames / 64) : scanWords s' count w = scanWords s count w := by
  induction count generalizing w with
  | zero => rfl
  | succ count inductionHypothesis =>
      rw [scanWords, scanWords, same.pmm, same.word_eq (by omega), inductionHypothesis (by omega)]

theorem selectFrame_eq (same : SameBitmap s s') (hint : s.pmm.allocHint ≤ s.pmm.totalFrames) :
    selectFrame s' = selectFrame s := by
  have start : s.pmm.allocHint / 64 ≤ s.pmm.totalFrames / 64 := Nat.div_le_div_right hint
  have fromHint := @scanWords_eq s s' same (s.pmm.totalFrames / 64 - s.pmm.allocHint / 64)
    (s.pmm.allocHint / 64) (by omega)
  have fromStart := @scanWords_eq s s' same (s.pmm.allocHint / 64) 0 (by omega)
  have trailing := @scanBits_eq s s' same (s.pmm.totalFrames - s.pmm.totalFrames / 64 * 64)
    (s.pmm.totalFrames / 64 * 64) (by omega)
  unfold selectFrame
  simp only [same.pmm, fromHint, fromStart, trailing]

theorem scanRun_eq (same : SameBitmap s s') {frameCount remaining i count start : Nat}
    (bound : i + remaining ≤ s.pmm.totalFrames) :
    scanRun s' frameCount remaining i count start =
      scanRun s frameCount remaining i count start := by
  induction remaining generalizing i count start with
  | zero => rfl
  | succ remaining inductionHypothesis =>
      have rest : ∀ count start, scanRun s' frameCount remaining (i + 1) count start =
          scanRun s frameCount remaining (i + 1) count start :=
        fun count start => inductionHypothesis (by omega)
      simp only [scanRun, same.test (show i < s.pmm.totalFrames by omega), rest]

theorem setRange (same : SameBitmap s s') {start count : Nat}
    (bound : start + count ≤ s.pmm.totalFrames) :
    SameBitmap (bitmapSetRange start count s) (bitmapSetRange start count s') := by
  induction count with
  | zero => exact same
  | succ count inductionHypothesis =>
      refine (inductionHypothesis (by omega)).set ?_
      rw [bitmapSetRange_pmm]
      omega

theorem markUsed (same : SameBitmap s s') (paddr : Nat) :
    SameBitmap (pmmMarkUsed paddr s) (pmmMarkUsed paddr s') := by
  unfold pmmMarkUsed
  dsimp only
  rw [same.pmm]
  by_cases bound : paddr / pageSize < s.pmm.totalFrames
  · rw [same.test bound]
    by_cases free : s.bitmapTest (paddr / pageSize) = false
    · have hits : paddr / pageSize < s.pmm.totalFrames ∧ s.bitmapTest (paddr / pageSize) = false :=
        ⟨bound, free⟩
      rw [if_pos hits, if_pos hits]
      simp only [bitmapSet_pmm, same.pmm]
      exact (same.set bound).withPmm rfl rfl
    · rw [if_neg fun both => free both.2, if_neg fun both => free both.2]
      exact same
  · rw [if_neg fun both => bound both.1, if_neg fun both => bound both.1]
    exact same

theorem markFree (same : SameBitmap s s') (paddr : Nat) :
    SameBitmap (pmmMarkFree paddr s) (pmmMarkFree paddr s') := by
  unfold pmmMarkFree
  dsimp only
  rw [same.pmm]
  by_cases bound : paddr / pageSize < s.pmm.totalFrames
  · rw [same.test bound]
    by_cases used : s.bitmapTest (paddr / pageSize) = true
    · have hits : paddr / pageSize < s.pmm.totalFrames ∧ s.bitmapTest (paddr / pageSize) = true :=
        ⟨bound, used⟩
      rw [if_pos hits, if_pos hits]
      simp only [bitmapClear_pmm, same.pmm]
      exact (same.clear bound).withPmm rfl rfl
    · rw [if_neg fun both => used both.2, if_neg fun both => used both.2]
      exact same
  · rw [if_neg fun both => bound both.1, if_neg fun both => bound both.1]
    exact same

theorem allocFrame (same : SameBitmap s s') (inv : PmmInv s) :
    (pmmAllocFrame s').1 = (pmmAllocFrame s).1 ∧
      SameBitmap (pmmAllocFrame s).2 (pmmAllocFrame s').2 := by
  unfold pmmAllocFrame
  rw [same.pmm, same.selectFrame_eq inv.hint_le]
  by_cases exhausted : s.pmm.usedFrames ≥ s.pmm.totalFrames
  · rw [if_pos exhausted, if_pos exhausted]
    exact ⟨rfl, same⟩
  · rw [if_neg exhausted, if_neg exhausted]
    cases selected : selectFrame s with
    | none => exact ⟨rfl, same⟩
    | some frame =>
        have bound := (selectFrame_eq_some inv selected).lt_high
        refine ⟨rfl, ?_⟩
        unfold takeFrame
        simp only [bitmapSet_pmm, same.pmm]
        exact (same.set bound).withPmm rfl rfl

theorem allocContiguous (same : SameBitmap s s') (frameCount : Nat) :
    (pmmAllocContiguous frameCount s').1 = (pmmAllocContiguous frameCount s).1 ∧
      SameBitmap (pmmAllocContiguous frameCount s).2 (pmmAllocContiguous frameCount s').2 := by
  have scan := @scanRun_eq s s' same frameCount s.pmm.totalFrames 0 0 0 (by omega)
  unfold pmmAllocContiguous
  rw [same.pmm, scan]
  by_cases empty : frameCount = 0
  · rw [if_pos empty, if_pos empty]
    exact ⟨rfl, same⟩
  · rw [if_neg empty, if_neg empty]
    have spec := @scanRun_all s frameCount empty
    cases found : scanRun s frameCount s.pmm.totalFrames 0 0 0 with
    | none => exact ⟨rfl, same⟩
    | some start =>
        rw [found] at spec
        refine ⟨rfl, ?_⟩
        simp only [bitmapSetRange_pmm, same.pmm]
        exact (same.setRange spec.2.1).withPmm (by simp) (by simp)

end SameBitmap

/-! ## Writes -/

section Writes

variable {s : PhysState}

/-- What a run of calls never changes: the size of the memory, and the clear
bits behind the last frame. -/
structure Bounded (s : PhysState) : Prop where
  inv : PmmInv s
  total_lt : s.pmm.totalFrames < 2 ^ 52
  trailing : ∀ bit, s.pmm.totalFrames ≤ bit → bit < 8 * bitmapSize s.pmm.totalFrames → s.Free bit

theorem pmmInit_bounded {memSize : Nat} (bound : memSize < 2 ^ 64) (bitmapBase : Nat)
    (s : PhysState) : Bounded (pmmInit memSize bitmapBase s) where
  inv := pmmInit_inv bound bitmapBase s
  total_lt := by
    rw [pmmInit_totalFrames]
    unfold pageSize
    omega
  trailing := fun bit _ inside => by
    rw [pmmInit_totalFrames] at inside
    have zero : (pmmInit memSize bitmapBase s).mem (bitmapBase + bit / 8) = 0 := by
      unfold pmmInit
      dsimp only
      rw [Mem.fill_apply, if_pos (by omega)]
    change (bitTest (pmmInit memSize bitmapBase s).mem bitmapBase bit) = false
    rw [bitTest_eq_testBit, zero]
    exact Nat.zero_testBit _

theorem Bounded.takes {after : PhysState} {taken : Set Nat} (bounded : Bounded s)
    (takes : Takes s after taken) : Bounded after where
  inv := takes.inv
  total_lt := by
    rw [takes.total_eq]
    exact bounded.total_lt
  trailing := fun bit beyond inside => by
    rw [takes.total_eq] at beyond inside
    rw [← PhysState.not_used_iff, takes.used_iff bit]
    rintro (used | isTaken)
    · exact (s.not_used_iff bit).mpr (bounded.trailing bit beyond inside) used
    · have := (takes.was_free bit isTaken).1
      omega

theorem Bounded.markFree (bounded : Bounded s) (paddr : Nat) : Bounded (pmmMarkFree paddr s) := by
  by_cases hits : paddr / pageSize < s.pmm.totalFrames ∧ s.Used (paddr / pageSize)
  · have releases := pmmMarkFree_effect bounded.inv hits.1 hits.2
    refine ⟨releases.inv, by rw [releases.total_eq]; exact bounded.total_lt, ?_⟩
    intro bit beyond inside
    rw [releases.total_eq] at beyond inside
    rw [← PhysState.not_used_iff, releases.used_iff bit]
    exact fun used => (s.not_used_iff bit).mpr (bounded.trailing bit beyond inside) used.1
  · rw [pmmMarkFree_of_free hits]
    exact bounded

theorem PmmReachable.bounded (reachable : PmmReachable s) : Bounded s := by
  induction reachable with
  | init memSize bitmapBase s bound => exact pmmInit_bounded bound bitmapBase s
  | markUsed paddr _ inductionHypothesis =>
      exact inductionHypothesis.takes (pmmMarkUsed_effect inductionHypothesis.inv paddr)
  | markFree paddr _ inductionHypothesis => exact inductionHypothesis.markFree paddr
  | freeFrame paddr _ inductionHypothesis => exact inductionHypothesis.markFree paddr
  | allocFrame _ inductionHypothesis =>
      rcases pmmAllocFrame_cases inductionHypothesis.inv with ⟨failed, _⟩ | ⟨_, _, _, takes⟩
      · rw [failed]
        exact inductionHypothesis
      · exact inductionHypothesis.takes takes
  | allocContiguous frameCount _ inductionHypothesis =>
      rcases pmmAllocContiguous_cases inductionHypothesis.inv frameCount with
        ⟨failed, _⟩ | ⟨_, _, _, _, _, _, takes⟩
      · rw [failed]
        exact inductionHypothesis
      · exact inductionHypothesis.takes takes

end Writes

end Physical
end AuraKernel
