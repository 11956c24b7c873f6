import AuraKernel.Physical.PmmInvariant

namespace AuraKernel
namespace Physical

open Machine

/-!
# Effects of the allocation and release calls

`Takes before after frames` is all a client has to know about a call that
hands out frames: they were free, they are used now, no other frame changed,
and only bitmap bytes were written.  `Releases` is its converse for
`pmm_free_frame`.  Both carry the invariant of the resulting state.
-/

/-- `after` is `before` with the frames of `taken` newly marked as used. -/
structure Takes (before after : PhysState) (taken : Set Nat) : Prop where
  bitmap_eq : after.pmm.bitmap = before.pmm.bitmap
  total_eq : after.pmm.totalFrames = before.pmm.totalFrames
  used_iff : ∀ frame, after.Used frame ↔ before.Used frame ∨ frame ∈ taken
  was_free : ∀ frame, frame ∈ taken → frame < before.pmm.totalFrames ∧ before.Free frame
  mem_eq : ∀ place, place ∉ before.bitmapBytes → after.mem place = before.mem place
  inv : PmmInv after

/-- `after` is `before` with the used frame `released` marked as free. -/
structure Releases (before after : PhysState) (released : Nat) : Prop where
  bitmap_eq : after.pmm.bitmap = before.pmm.bitmap
  total_eq : after.pmm.totalFrames = before.pmm.totalFrames
  used_iff : ∀ frame, after.Used frame ↔ before.Used frame ∧ frame ≠ released
  mem_eq : ∀ place, place ∉ before.bitmapBytes → after.mem place = before.mem place
  inv : PmmInv after

theorem Takes.refl {s : PhysState} (inv : PmmInv s) : Takes s s ∅ where
  bitmap_eq := rfl
  total_eq := rfl
  used_iff := by simp
  was_free := by simp
  mem_eq := fun _ _ => rfl
  inv := inv

theorem Takes.bitmapBytes_eq {before after : PhysState} {taken : Set Nat}
    (takes : Takes before after taken) : after.bitmapBytes = before.bitmapBytes := by
  unfold PhysState.bitmapBytes
  rw [takes.bitmap_eq, takes.total_eq]

theorem Releases.bitmapBytes_eq {before after : PhysState} {released : Nat}
    (releases : Releases before after released) : after.bitmapBytes = before.bitmapBytes := by
  unfold PhysState.bitmapBytes
  rw [releases.bitmap_eq, releases.total_eq]

/-! ## Writes outside the bitmap

Writes outside the bitmap are invisible to the manager. -/

theorem used_congr {s after : PhysState} (pmm : after.pmm = s.pmm)
    (bitmap : ∀ place ∈ s.bitmapBytes, after.mem place = s.mem place) {frame : Nat}
    (bound : frame < s.pmm.totalFrames) : after.Used frame ↔ s.Used frame := by
  have byte := bitmap _ (bit_byte_mem s.pmm.bitmap bound)
  unfold PhysState.Used PhysState.bitmapTest
  rw [pmm, bitTest_eq_testBit, bitTest_eq_testBit, byte]

theorem PmmInv.congr {s after : PhysState} (inv : PmmInv s) (pmm : after.pmm = s.pmm)
    (bitmap : ∀ place ∈ s.bitmapBytes, after.mem place = s.mem place) : PmmInv after where
  total_le := by
    rw [pmm]
    exact inv.total_le
  hint_le := by
    rw [pmm]
    exact inv.hint_le
  below_hint := fun frame less => by
    rw [pmm] at less
    exact (used_congr pmm bitmap (Nat.lt_of_lt_of_le less inv.hint_le)).mpr
      (inv.below_hint frame less)
  used_eq := by
    rw [pmm, inv.used_eq, Nat.count_eq_card_filter_range, Nat.count_eq_card_filter_range]
    refine congrArg Finset.card (Finset.filter_congr fun frame member => ?_)
    exact (used_congr pmm bitmap (Finset.mem_range.mp member)).symm

/-- The counter follows the frames in use. -/
theorem usedFrames_mono {s after : PhysState} (inv : PmmInv s) (inv' : PmmInv after)
    (total : after.pmm.totalFrames = s.pmm.totalFrames)
    (mono : ∀ frame, frame < s.pmm.totalFrames → s.Used frame → after.Used frame) :
    s.pmm.usedFrames ≤ after.pmm.usedFrames := by
  rw [inv.used_eq, inv'.used_eq, total, Nat.count_eq_card_filter_range,
    Nat.count_eq_card_filter_range]
  apply Finset.card_le_card
  intro other member
  rcases Finset.mem_filter.mp member with ⟨inside, wasUsed⟩
  exact Finset.mem_filter.mpr ⟨inside, mono other (Finset.mem_range.mp inside) wasUsed⟩

/-- More frames in use show in the counter. -/
theorem usedFrames_lt {s after : PhysState} (inv : PmmInv s) (inv' : PmmInv after)
    (total : after.pmm.totalFrames = s.pmm.totalFrames)
    (mono : ∀ frame, frame < s.pmm.totalFrames → s.Used frame → after.Used frame) {frame : Nat}
    (bound : frame < s.pmm.totalFrames) (free : s.Free frame) (used : after.Used frame) :
    s.pmm.usedFrames < after.pmm.usedFrames := by
  rw [inv.used_eq, inv'.used_eq, total, Nat.count_eq_card_filter_range,
    Nat.count_eq_card_filter_range]
  apply Finset.card_lt_card
  refine (Finset.ssubset_iff_of_subset ?_).mpr ⟨frame, ?_, ?_⟩
  · intro other member
    rcases Finset.mem_filter.mp member with ⟨inside, wasUsed⟩
    exact Finset.mem_filter.mpr ⟨inside, mono other (Finset.mem_range.mp inside) wasUsed⟩
  · exact Finset.mem_filter.mpr ⟨Finset.mem_range.mpr bound, used⟩
  · intro member
    exact (s.not_free_iff frame).mpr (Finset.mem_filter.mp member).2 free

/-- The counter grows by one with one frame. -/
theorem Takes.usedFrames_succ {s after : PhysState} {frame : Nat} (takes : Takes s after {frame})
    (inv : PmmInv s) : after.pmm.usedFrames = s.pmm.usedFrames + 1 := by
  rcases takes.was_free frame rfl with ⟨bound, free⟩
  have bits : ∀ other, after.bitmapTest other = (s.bitmapTest other || decide (other = frame)) := by
    intro other
    rw [Bool.eq_iff_iff, Bool.or_eq_true, decide_eq_true_eq]
    exact takes.used_iff other
  have counted := count_insert bound free bits
  rw [takes.inv.used_eq, takes.total_eq, inv.used_eq]
  exact counted

/-! ## Marking single frames -/

/-- Setting a free bit and counting it keeps the invariant, wherever the hint
then lies, as long as every frame below it is used. -/
theorem takes_of_bitmapSet {s after : PhysState} (inv : PmmInv s) {frame : Nat}
    (bound : frame < s.pmm.totalFrames) (free : s.Free frame)
    (mem : after.mem = (s.bitmapSet frame).mem) (base : after.pmm.bitmap = s.pmm.bitmap)
    (total : after.pmm.totalFrames = s.pmm.totalFrames)
    (counter : after.pmm.usedFrames = wrap64 (s.pmm.usedFrames + 1))
    (hintLe : after.pmm.allocHint ≤ s.pmm.totalFrames)
    (below : ∀ earlier, earlier < after.pmm.allocHint → s.Used earlier ∨ earlier = frame) :
    Takes s after {frame} := by
  have totalLe := inv.total_le
  have usedLe := usedFrames_le inv
  have bits : ∀ other, after.bitmapTest other = (s.bitmapTest other || decide (other = frame)) := by
    intro other
    rw [← bitmapTest_bitmapSet]
    exact bitmapTest_congr mem base other
  refine ⟨base, total, ?_, ?_, ?_, ⟨by omega, by omega, ?_, ?_⟩⟩
  · intro other
    unfold PhysState.Used
    rw [bits, Bool.or_eq_true, decide_eq_true_eq, Set.mem_singleton_iff]
  · intro other member
    rw [Set.mem_singleton_iff] at member
    subst member
    exact ⟨bound, free⟩
  · intro place outside
    rw [mem]
    exact bitmapSet_mem_of_not_mem bound outside
  · intro earlier less
    unfold PhysState.Used
    rw [bits, Bool.or_eq_true, decide_eq_true_eq]
    exact below earlier less
  · have counted := count_insert bound free bits
    have usedEq : s.pmm.usedFrames = Nat.count (fun index => s.bitmapTest index = true)
      s.pmm.totalFrames := inv.used_eq
    rw [counter, total, wrap64_of_lt (by omega), usedEq]
    exact counted.symm

theorem pmmMarkUsed_effect {s : PhysState} (inv : PmmInv s) (paddr : Nat) :
    Takes s (pmmMarkUsed paddr s)
      {frame | frame = paddr / pageSize ∧ frame < s.pmm.totalFrames ∧ s.Free frame} := by
  unfold pmmMarkUsed
  dsimp only
  by_cases marks : paddr / pageSize < s.pmm.totalFrames ∧ s.bitmapTest (paddr / pageSize) = false
  · rw [if_pos marks]
    have single : {frame | frame = paddr / pageSize ∧ frame < s.pmm.totalFrames ∧ s.Free frame} =
        {paddr / pageSize} := by
      ext frame
      rw [Set.mem_ofPred_eq, Set.mem_singleton_iff]
      constructor
      · exact fun member => member.1
      · intro same
        subst same
        exact ⟨rfl, marks⟩
    rw [single]
    exact takes_of_bitmapSet inv marks.1 marks.2 rfl rfl rfl rfl inv.hint_le
      (fun earlier less => Or.inl (inv.below_hint earlier less))
  · rw [if_neg marks]
    have none : {frame | frame = paddr / pageSize ∧ frame < s.pmm.totalFrames ∧ s.Free frame} =
        (∅ : Set Nat) := by
      ext frame
      rw [Set.mem_ofPred_eq, Set.mem_empty_iff_false, iff_false]
      intro member
      exact marks (member.1 ▸ member.2)
    rw [none]
    exact Takes.refl inv

/-- Clearing a used bit, discounting it and lowering the hint to it. -/
theorem releases_of_bitmapClear {s after : PhysState} (inv : PmmInv s) {frame : Nat}
    (bound : frame < s.pmm.totalFrames) (used : s.Used frame)
    (mem : after.mem = (s.bitmapClear frame).mem) (base : after.pmm.bitmap = s.pmm.bitmap)
    (total : after.pmm.totalFrames = s.pmm.totalFrames)
    (counter : after.pmm.usedFrames = sub64 s.pmm.usedFrames 1)
    (hint : after.pmm.allocHint = if frame < s.pmm.allocHint then frame else s.pmm.allocHint) :
    Releases s after frame := by
  have totalLe := inv.total_le
  have usedLe := usedFrames_le inv
  have hintLe := inv.hint_le
  have lowered : after.pmm.allocHint ≤ s.pmm.allocHint ∧ after.pmm.allocHint ≤ frame := by
    rw [hint]
    split <;> omega
  have bits : ∀ other, after.bitmapTest other =
      (s.bitmapTest other && !decide (other = frame)) := by
    intro other
    rw [← bitmapTest_bitmapClear]
    exact bitmapTest_congr mem base other
  refine ⟨base, total, ?_, ?_, ⟨by omega, by omega, ?_, ?_⟩⟩
  · intro other
    unfold PhysState.Used
    rw [bits, Bool.and_eq_true, Bool.not_eq_true', decide_eq_false_iff_not]
  · intro place outside
    rw [mem]
    exact bitmapClear_mem_of_not_mem bound outside
  · intro earlier less
    unfold PhysState.Used
    rw [bits, Bool.and_eq_true, Bool.not_eq_true', decide_eq_false_iff_not]
    exact ⟨inv.below_hint earlier (by omega), by omega⟩
  · have counted := count_remove bound used bits
    have usedEq : s.pmm.usedFrames = Nat.count (fun index => s.bitmapTest index = true)
      s.pmm.totalFrames := inv.used_eq
    rw [counter, total, sub64_of_le (by omega)]
    exact Nat.sub_eq_of_eq_add (usedEq.trans counted.symm)

/-- A release that hits a used frame clears exactly its bit. -/
theorem pmmMarkFree_effect {s : PhysState} (inv : PmmInv s) {paddr : Nat}
    (bound : paddr / pageSize < s.pmm.totalFrames) (used : s.Used (paddr / pageSize)) :
    Releases s (pmmMarkFree paddr s) (paddr / pageSize) := by
  unfold pmmMarkFree
  dsimp only
  rw [if_pos ⟨bound, used⟩]
  exact releases_of_bitmapClear inv bound used rfl rfl rfl rfl rfl

/-- A release that hits no used frame changes nothing. -/
theorem pmmMarkFree_of_free {s : PhysState} {paddr : Nat}
    (idle : ¬ (paddr / pageSize < s.pmm.totalFrames ∧ s.Used (paddr / pageSize))) :
    pmmMarkFree paddr s = s := by
  unfold pmmMarkFree
  exact if_neg idle

theorem pmmMarkFree_inv {s : PhysState} (inv : PmmInv s) (paddr : Nat) :
    PmmInv (pmmMarkFree paddr s) := by
  by_cases hits : paddr / pageSize < s.pmm.totalFrames ∧ s.Used (paddr / pageSize)
  · exact (pmmMarkFree_effect inv hits.1 hits.2).inv
  · rw [pmmMarkFree_of_free hits]
    exact inv

/-! ## One frame -/

/-- `pmm_alloc_frame` hands out the lowest free frame, or fails when there is none. -/
theorem pmmAllocFrame_cases {s : PhysState} (inv : PmmInv s) :
    (pmmAllocFrame s = (0, s) ∧ ∀ frame, frame < s.pmm.totalFrames → s.Used frame) ∨
      ∃ frame, FirstIn s.Free 0 s.pmm.totalFrames frame ∧ pmmAllocFrame s = takeFrame frame s ∧
        Takes s (pmmAllocFrame s).2 {frame} := by
  unfold pmmAllocFrame
  by_cases exhausted : s.pmm.usedFrames ≥ s.pmm.totalFrames
  · rw [if_pos exhausted]
    exact Or.inl ⟨rfl, (usedFrames_ge_iff inv).mp exhausted⟩
  · rw [if_neg exhausted]
    cases selected : selectFrame s with
    | none => exact Or.inl ⟨rfl, selectFrame_eq_none inv selected⟩
    | some frame =>
        have first := selectFrame_eq_some inv selected
        refine Or.inr ⟨frame, first, rfl, ?_⟩
        refine takes_of_bitmapSet inv first.lt_high first.sound rfl rfl rfl rfl first.lt_high ?_
        intro earlier less
        have le : earlier ≤ frame := Nat.le_of_lt_succ less
        rcases Nat.lt_or_eq_of_le le with before | same
        · exact Or.inl ((s.not_free_iff _).mp (first.least earlier (Nat.zero_le _) before))
        · exact Or.inr same

theorem pmmAllocFrame_inv {s : PhysState} (inv : PmmInv s) : PmmInv (pmmAllocFrame s).2 := by
  rcases pmmAllocFrame_cases inv with ⟨failed, _⟩ | ⟨frame, _, _, takes⟩
  · rw [failed]
    exact inv
  · exact takes.inv

/-! ## A run of frames -/

theorem bitmapTest_bitmapSetRange (start count : Nat) (s : PhysState) (other : Nat) :
    (bitmapSetRange start count s).bitmapTest other =
      (s.bitmapTest other || decide (start ≤ other ∧ other < start + count)) := by
  induction count with
  | zero =>
      have empty : ¬ (start ≤ other ∧ other < start + 0) := by omega
      simp only [bitmapSetRange, empty, decide_false, Bool.or_false]
  | succ count inductionHypothesis =>
      rw [bitmapSetRange, bitmapTest_bitmapSet, inductionHypothesis, Bool.or_assoc]
      congr 1
      rw [Bool.eq_iff_iff, Bool.or_eq_true, decide_eq_true_eq, decide_eq_true_eq, decide_eq_true_eq]
      omega

@[simp] theorem bitmapSetRange_pmm (start count : Nat) (s : PhysState) :
    (bitmapSetRange start count s).pmm = s.pmm := by
  induction count with
  | zero => rfl
  | succ count inductionHypothesis => exact inductionHypothesis

theorem bitmapSetRange_mem_of_not_mem {start count : Nat} {s : PhysState} {place : Nat}
    (bound : start + count ≤ s.pmm.totalFrames) (outside : place ∉ s.bitmapBytes) :
    (bitmapSetRange start count s).mem place = s.mem place := by
  induction count with
  | zero => rfl
  | succ count inductionHypothesis =>
      rw [bitmapSetRange, ← inductionHypothesis (by omega)]
      apply bitmapSet_mem_of_not_mem
      · rw [bitmapSetRange_pmm]
        omega
      · unfold PhysState.bitmapBytes
        rw [bitmapSetRange_pmm]
        exact outside

theorem count_bitmapSetRange {start count : Nat} {s : PhysState}
    (bound : start + count ≤ s.pmm.totalFrames) (free : Run s.Free count start) :
    Nat.count (fun index => (bitmapSetRange start count s).bitmapTest index = true)
        s.pmm.totalFrames =
      Nat.count (fun index => s.bitmapTest index = true) s.pmm.totalFrames + count := by
  induction count with
  | zero => rfl
  | succ count inductionHypothesis =>
      have shorter : Run s.Free count start :=
        fun position low high => free position low (by omega)
      have fresh : (bitmapSetRange start count s).bitmapTest (start + count) = false := by
        have lastFree : s.bitmapTest (start + count) = false := free _ (by omega) (by omega)
        rw [bitmapTest_bitmapSetRange, lastFree]
        simp
      have inside : start + count < s.pmm.totalFrames := by omega
      have step := count_insert inside fresh
        (fun index => bitmapTest_bitmapSet (bitmapSetRange start count s) (start + count) index)
      rw [inductionHypothesis (by omega) shorter] at step
      exact step

/-- Setting the bits of a free run and counting them keeps the invariant; the
hint stays where it was. -/
theorem takes_of_bitmapSetRange {s after : PhysState} (inv : PmmInv s) {start count : Nat}
    (bound : start + count ≤ s.pmm.totalFrames) (free : Run s.Free count start)
    (mem : after.mem = (bitmapSetRange start count s).mem)
    (base : after.pmm.bitmap = s.pmm.bitmap) (total : after.pmm.totalFrames = s.pmm.totalFrames)
    (counter : after.pmm.usedFrames = wrap64 (s.pmm.usedFrames + count))
    (hint : after.pmm.allocHint = s.pmm.allocHint) :
    Takes s after (Set.Ico start (start + count)) := by
  have totalLe := inv.total_le
  have bits : ∀ other, after.bitmapTest other =
      (s.bitmapTest other || decide (start ≤ other ∧ other < start + count)) := by
    intro other
    rw [← bitmapTest_bitmapSetRange]
    exact bitmapTest_congr mem (base.trans (by rw [bitmapSetRange_pmm])) other
  have counted : Nat.count (fun index => after.bitmapTest index = true) s.pmm.totalFrames =
      s.pmm.usedFrames + count := by
    have same : after.bitmapTest = (bitmapSetRange start count s).bitmapTest := by
      funext other
      rw [bits, bitmapTest_bitmapSetRange]
    have usedEq : s.pmm.usedFrames = Nat.count (fun index => s.bitmapTest index = true)
      s.pmm.totalFrames := inv.used_eq
    simp only [same]
    rw [count_bitmapSetRange bound free, usedEq]
  refine ⟨base, total, ?_, ?_, ?_, ⟨by omega, by rw [hint, total]; exact inv.hint_le, ?_, ?_⟩⟩
  · intro other
    unfold PhysState.Used
    rw [bits, Bool.or_eq_true, decide_eq_true_eq, Set.mem_Ico]
  · intro other member
    exact ⟨by have := member.2; omega, free other member.1 member.2⟩
  · intro place outside
    rw [mem]
    exact bitmapSetRange_mem_of_not_mem bound outside
  · intro earlier less
    unfold PhysState.Used
    rw [bits, Bool.or_eq_true]
    exact Or.inl (inv.below_hint earlier (hint ▸ less))
  · have atMost : Nat.count (fun index => after.bitmapTest index = true) s.pmm.totalFrames ≤
        s.pmm.totalFrames := Nat.count_le _
    rw [counter, total, wrap64_of_lt (by omega), ← counted]
    rfl

/-- The run counter finds the lowest run that is long enough.  `count` is the
length of the free run that ends right before frame `i`; it cannot be extended
to the left, and no sufficient run ends before `i`. -/
theorem scanRun_spec (s : PhysState) (frameCount remaining i count start : Nat)
    (countLe : count ≤ i) (short : count < frameCount) (current : Run s.Free count (i - count))
    (maximal : count < i → s.Used (i - count - 1)) (startEq : count ≠ 0 → start = i - count)
    (rejected : ∀ lower, lower + frameCount ≤ i → ¬ Run s.Free frameCount lower) :
    match scanRun s frameCount remaining i count start with
    | some found => Run s.Free frameCount found ∧ found + frameCount ≤ i + remaining ∧
        ∀ lower, lower < found → ¬ Run s.Free frameCount lower
    | none => ∀ lower, lower + frameCount ≤ i + remaining → ¬ Run s.Free frameCount lower := by
  induction remaining generalizing i count start with
  | zero => exact rejected
  | succ remaining inductionHypothesis =>
      rw [scanRun]
      by_cases free : s.bitmapTest i = false
      · rw [if_pos free]
        dsimp only
        have startHere : (if count = 0 then i else start) = i - count := by
          by_cases empty : count = 0
          · rw [if_pos empty, empty, Nat.sub_zero]
          · rw [if_neg empty, startEq empty]
        have extended : Run s.Free (count + 1) (i - count) := by
          intro position low high
          by_cases last : position = i
          · rw [last]
            exact free
          · exact current position low (by omega)
        rw [startHere]
        by_cases full : count + 1 = frameCount
        · rw [if_pos full]
          refine ⟨full ▸ extended, by omega, ?_⟩
          intro lower less
          exact rejected lower (by omega)
        · rw [if_neg full]
          have shifted : i + (remaining + 1) = i + 1 + remaining := by omega
          rw [shifted]
          have sub : i + 1 - (count + 1) = i - count := by omega
          refine inductionHypothesis (i + 1) (count + 1) (i - count) (by omega) (by omega)
            (by rw [sub]; exact extended) ?_ ?_ ?_
          · intro less
            rw [sub]
            exact maximal (by omega)
          · intro _
            omega
          · intro lower fits run
            by_cases before : lower + frameCount ≤ i
            · exact rejected lower before run
            · -- a window ending at `i` is longer than the current run
              have used := maximal (by omega)
              exact (s.not_free_iff _).mpr used (run (i - count - 1) (by omega) (by omega))
      · rw [if_neg free]
        have shifted : i + (remaining + 1) = i + 1 + remaining := by omega
        rw [shifted]
        refine inductionHypothesis (i + 1) 0 start (by omega) (by omega) ?_ ?_ ?_ ?_
        · intro position low high
          omega
        · intro _
          exact (s.not_free_iff i).mp free
        · intro nonzero
          exact absurd rfl nonzero
        · intro lower fits run
          by_cases before : lower + frameCount ≤ i
          · exact rejected lower before run
          · exact free (run i (by omega) (by omega))

theorem scanRun_all {s : PhysState} {frameCount : Nat} (positive : frameCount ≠ 0) :
    match scanRun s frameCount s.pmm.totalFrames 0 0 0 with
    | some found => Run s.Free frameCount found ∧ found + frameCount ≤ s.pmm.totalFrames ∧
        ∀ lower, lower < found → ¬ Run s.Free frameCount lower
    | none => ∀ lower, lower + frameCount ≤ s.pmm.totalFrames → ¬ Run s.Free frameCount lower := by
  have spec := scanRun_spec s frameCount s.pmm.totalFrames 0 0 0 (Nat.le_refl _)
    (Nat.pos_of_ne_zero positive)
    (fun position low high => by omega) (fun less => by omega) (fun nonzero => absurd rfl nonzero)
    (fun lower fits => by omega)
  simpa only [Nat.zero_add] using spec

/-- `pmm_alloc_contiguous` hands out the lowest run of free frames that is long
enough, or changes nothing. -/
theorem pmmAllocContiguous_cases {s : PhysState} (inv : PmmInv s) (frameCount : Nat) :
    (pmmAllocContiguous frameCount s = (0, s) ∧ (frameCount = 0 ∨
        ∀ lower, lower + frameCount ≤ s.pmm.totalFrames → ¬ Run s.Free frameCount lower)) ∨
      ∃ start, 0 < frameCount ∧ Run s.Free frameCount start ∧
        start + frameCount ≤ s.pmm.totalFrames ∧
        (∀ lower, lower < start → ¬ Run s.Free frameCount lower) ∧
        (pmmAllocContiguous frameCount s).1 = start * pageSize ∧
        Takes s (pmmAllocContiguous frameCount s).2 (Set.Ico start (start + frameCount)) := by
  unfold pmmAllocContiguous
  by_cases empty : frameCount = 0
  · rw [if_pos empty]
    exact Or.inl ⟨rfl, Or.inl empty⟩
  · rw [if_neg empty]
    have spec := scanRun_all (s := s) empty
    cases found : scanRun s frameCount s.pmm.totalFrames 0 0 0 with
    | none =>
        rw [found] at spec
        exact Or.inl ⟨rfl, Or.inr spec⟩
    | some start =>
        rw [found] at spec
        have totalLe := inv.total_le
        have usedLe := usedFrames_le inv
        refine Or.inr ⟨start, Nat.pos_of_ne_zero empty, spec.1, spec.2.1, spec.2.2, rfl, ?_⟩
        refine takes_of_bitmapSetRange inv spec.2.1 spec.1 rfl ?_ ?_ ?_ ?_ <;>
          simp only [bitmapSetRange_pmm]

end Physical
end AuraKernel
