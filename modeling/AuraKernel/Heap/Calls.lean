import AuraKernel.Heap.Growth
import AuraKernel.Heap.Merging

namespace AuraKernel
namespace Heap

open Machine
open Physical

/-!
# The calls of the heap

Every call returns, keeps the invariant, and writes to no payload that stays in
use.  `kmalloc` adds one block to the blocks in use or fails, `kfree` removes
the block it is given, and `krealloc` is a combination of both with a copy in
between.
-/

section Calls

variable {s s' : HeapState} {reserved : Set Nat} {layout after : Layout}

theorem HeapEffect.mono {kept kept' : Finset Nat} (effect : HeapEffect s s' layout after kept)
    (subset : kept' ⊆ kept) : HeapEffect s s' layout after kept' :=
  { effect with
    live_before := subset.trans effect.live_before
    live_after := subset.trans effect.live_after
    size_eq := fun b member => effect.size_eq b (subset member)
    payload_eq := fun b member => effect.payload_eq b (subset member) }

/-! ## Walks along the free list -/

/-- No list of different addresses is as long as the address space. -/
theorem FreeList.length_lt {blocks : Finset Nat} {nodes : List Nat} (spread : Spread blocks)
    (freeList : FreeList s blocks nodes) : nodes.length < wordSize := by
  have subset : nodes.toFinset ⊆ Finset.Ico 1 (2 ^ 64) := by
    intro b member
    have inside := freeList.subset b (List.mem_toFinset.mp member)
    have nonzero := spread.nonzero b inside
    exact Finset.mem_Ico.mpr ⟨by omega, spread.small b inside⟩
  have card := Finset.card_le_card subset
  rw [List.toFinset_card_of_nodup freeList.distinct, Nat.card_Ico] at card
  unfold wordSize
  omega

/-- The search returns the first block that is large enough. -/
theorem searchLoop_spec {mem : Mem} {prevFree : Nat → Nat} {before cur : Nat} {nodes : List Nat}
    (linked : Linked (Block.nextFree mem) prevFree before cur nodes) (size : Nat) {fuel : Nat}
    (enough : nodes.length < fuel) :
    (searchLoop mem size fuel cur = some 0 ∧ ∀ b ∈ nodes, Block.size mem b < size) ∨
      ∃ b ∈ nodes, searchLoop mem size fuel cur = some b ∧ size ≤ Block.size mem b := by
  induction nodes generalizing before cur fuel with
  | nil =>
      cases fuel with
      | zero => simp at enough
      | succ fuel =>
          have ended : cur = 0 := linked
          refine Or.inl ⟨?_, by simp⟩
          rw [searchLoop, if_pos ended]
  | cons node rest inductionHypothesis =>
      cases fuel with
      | zero => simp at enough
      | succ fuel =>
          rcases linked with ⟨starts, nonzero, _, tail⟩
          subst starts
          rw [searchLoop, if_neg nonzero]
          by_cases large : Block.size mem cur ≥ size
          · rw [if_pos large]
            exact Or.inr ⟨cur, by simp, rfl, large⟩
          · rw [if_neg large]
            rcases inductionHypothesis tail (by simpa using enough) with
              ⟨missing, small⟩ | ⟨b, later, found, fits⟩
            · refine Or.inl ⟨missing, fun b member => ?_⟩
              rcases List.mem_cons.mp member with rfl | later
              · omega
              · exact small b later
            · exact Or.inr ⟨b, List.mem_cons_of_mem _ later, found, fits⟩

/-! ## Taking a block -/

/-- No two neighbouring blocks are free. -/
def Layout.Merged (layout : Layout) (mem : Mem) : Prop :=
  Machine.Merged (tagOf mem) layout.blocks

theorem HeapInv.take {cur size : Nat} (inv : HeapInv s reserved layout)
    (member : cur ∈ layout.nodes) (grain : 8 ∣ size) (fits : size ≤ Block.size s.mem cur) :
    ∃ after, HeapInv (takeBlock cur size s) reserved after ∧
      HeapEffect s (takeBlock cur size s) layout after (layout.live s.mem) ∧
      after.live (takeBlock cur size s).mem = insert cur (layout.live s.mem) ∧
      size ≤ Block.size (takeBlock cur size s).mem cur ∧ after.regions = layout.regions ∧
      (layout.Merged s.mem → after.Merged (takeBlock cur size s).mem ∧
        Guarded (tagOf (takeBlock cur size s).mem) cur) := by
  have sizeLe := inv.size_add_le (inv.freeList.subset cur member)
  have threshold : wrap64 (size + headerSize + minSplit) = size + headerSize + minSplit := by
    apply wrap64_of_lt
    unfold headerSize pageSize minSplit at *
    omega
  rcases (inv.free_iff cur).mp member with ⟨curMem, curFree⟩
  have headerPos : 0 < headerSize := by decide
  unfold takeBlock
  rw [threshold]
  by_cases large : Block.size s.mem cur ≥ size + headerSize + minSplit
  · rw [if_pos large]
    rcases inv.split member grain (by omega) with ⟨inv', effect, live, curSize, tags⟩
    have member' : cur ∈ (layout.split cur size).nodes := List.mem_cons_of_mem _ member
    rcases inv'.acquire member' with ⟨inv'', effect', live', curSize', tags'⟩
    rw [live] at effect' live'
    have fresh : cur + headerSize + size ∉ layout.blocks := by
      refine inv.tiling.not_mem_inside curMem (by omega) ?_
      change cur + headerSize + size < cur + headerSize + Block.size s.mem cur
      omega
    refine ⟨_, inv'', effect.trans effect', live', by rw [curSize', curSize], rfl,
      fun merged => ⟨?_, ?_⟩⟩
    · have cut := merged.split_mark inv.tiling headerPos curMem curFree fresh
        (by decide : (1 : UInt8) ≠ 0)
      refine Machine.Merged.congr cut (fun b inside => ?_) inv''.tiling.next_mem
      rw [tags' b inside]
      unfold markTag
      rw [tags b inside]
    · have curMem' : cur ∈ (layout.split cur size).blocks := Finset.mem_insert_of_mem curMem
      have alone := (merged.guarded inv.tiling curMem curFree).split inv.tiling headerPos curMem
        fresh
      exact ((alone.congr inv'.tiling curMem' tags).mark inv'.tiling headerPos curMem' 1).congr
        inv''.tiling curMem' tags'
  · rw [if_neg large]
    rcases inv.acquire member with ⟨inv', effect, live, curSize, tags⟩
    refine ⟨_, inv', effect, live, by rw [curSize]; exact fits, rfl, fun merged => ⟨?_, ?_⟩⟩
    · exact (merged.mark (by decide : (1 : UInt8) ≠ 0)).congr tags inv'.tiling.next_mem
    · exact ((merged.guarded inv.tiling curMem curFree).mark inv.tiling headerPos curMem 1).congr
        inv'.tiling curMem tags

/-! ## Growing -/

/-- `grow_heap` has added a region: one free block, in frames that were free. -/
structure Grows (s s' : HeapState) (reserved : Set Nat) (layout after : Layout)
    (minPayload : Nat) : Prop where
  grown : growHeap minPayload s = (true, s')
  inv : HeapInv s' reserved after
  effect : HeapEffect s s' layout after (layout.live s.mem)
  live_eq : after.live s'.mem = layout.live s.mem
  usedFrames_lt : s.phys.pmm.usedFrames < s'.phys.pmm.usedFrames
  merged : layout.Merged s.mem → after.Merged s'.mem
  room : ∃ b ∈ after.nodes, Block.size s'.mem b = growPages minPayload * pageSize - headerSize

/-- `grow_heap` fails without effect, and then there is no run of free frames, or
it adds a region. -/
theorem HeapInv.growHeap_cases (inv : HeapInv s reserved layout) (minPayload : Nat) :
    (growHeap minPayload s = (false, s) ∧ (growPages minPayload = 0 ∨
        ∀ lower, lower + growPages minPayload ≤ s.phys.pmm.totalFrames →
          ¬ Run s.phys.Free (growPages minPayload) lower)) ∨
      ∃ s' after, Grows s s' reserved layout after minPayload := by
  rcases pmmAllocContiguous_cases inv.space.pmm (growPages minPayload) with
    ⟨failed, none⟩ | ⟨start, positive, free, bound, _, address, takes⟩
  · refine Or.inl ⟨?_, none⟩
    rw [growHeap_eq, failed]
    rfl
  · have eq := growHeap_eq minPayload s
    generalize (pmmAllocContiguous (growPages minPayload) s.phys).2 = phys' at takes eq
    have startNe := inv.space.frame_zero positive free bound
    have spaceLt := inv.space.space_lt
    have regionLe : s.physOffset + (start + growPages minPayload) * pageSize ≤
        s.physOffset + s.phys.pmm.totalFrames * pageSize :=
      Nat.add_le_add_left (Nat.mul_le_mul_right _ bound) _
    have addressNe : start * pageSize ≠ 0 := Nat.mul_ne_zero startNe (by decide)
    have runLength : (start + growPages minPayload) * pageSize =
        start * pageSize + growPages minPayload * pageSize := Nat.add_mul _ _ _
    have pagesPos : 1 * pageSize ≤ growPages minPayload * pageSize :=
      Nat.mul_le_mul_right _ positive
    have placeEq : wrap64 (start * pageSize + s.physOffset) =
        (frameRegion s.physOffset start (growPages minPayload)).start := by
      rw [wrap64_of_lt (by omega)]
      exact Nat.add_comm _ _
    have sizeEq : sub64 (wrap64 (growPages minPayload * pageSize)) headerSize =
        (frameRegion s.physOffset start (growPages minPayload)).stop -
          (frameRegion s.physOffset start (growPages minPayload)).start - headerSize := by
      have header : headerSize ≤ growPages minPayload * pageSize := by
        unfold headerSize pageSize at *
        omega
      rw [wrap64_of_lt (by omega), sub64_of_le header]
      simp only [frameRegion]
      omega
    rw [address, if_neg addressNe, placeEq, sizeEq] at eq
    rcases inv.grow positive free bound takes rfl rfl with
      ⟨inv', effect, live, oldTags, newTag⟩
    refine Or.inr ⟨_, _, eq, inv', effect, live, ?_,
      fun merged => merged.extend inv.tiling newTag oldTags,
      ⟨_, List.mem_cons_self .., ?_⟩⟩
    swap
    · refine (congrArg Tag.size newTag).trans ?_
      simp only [wholeTag, frameRegion]
      omega
    have startInHeap : start ∈ (layout.grow (frameRegion s.physOffset start
        (growPages minPayload))).frames s.physOffset := by
      refine ⟨_, Finset.mem_insert_self _ _, Nat.le_refl _, ?_⟩
      have pagePos : 0 < pageSize := by decide
      simp only [frameRegion]
      omega
    rw [← effect.physOffset_eq] at startInHeap
    exact usedFrames_lt inv.space.pmm inv'.space.pmm effect.total_eq
      (fun frame frameBound used => (effect.used_iff frame frameBound).mpr (Or.inl used))
      (by omega) (free start (Nat.le_refl _) (by omega)) (inv'.frames_owned startInHeap).1

/-! ## kmalloc -/

theorem alignUp_of_dvd {size : Nat} (aligned : 8 ∣ size) (small : size < 2 ^ 64) :
    alignUp size 8 = size := by
  rw [show (8 : Nat) = 2 ^ 3 from rfl, alignUp_eq (by decide)]
  unfold wrap64
  omega

theorem dvd_alignUp (size : Nat) : 8 ∣ alignUp size 8 := by
  rw [show (8 : Nat) = 2 ^ 3 from rfl, alignUp_eq (by decide)]
  exact Nat.dvd_mul_left _ _

/-- The result of a call that allocates: NULL, or a block that was not in use. -/
structure Allocates (s s' : HeapState) (reserved : Set Nat) (layout after : Layout)
    (size ptr : Nat) : Prop where
  inv : HeapInv s' reserved after
  effect : HeapEffect s s' layout after (layout.live s.mem)
  result : (ptr = 0 ∧ after.live s'.mem = layout.live s.mem) ∨
    ∃ b, ptr = b + headerSize ∧ b ∉ layout.live s.mem ∧
      after.live s'.mem = insert b (layout.live s.mem) ∧ size ≤ Block.size s'.mem b ∧
      (layout.Merged s.mem → Guarded (tagOf s'.mem) b)
  merged : layout.Merged s.mem → after.Merged s'.mem

/-- The body of `kmalloc`: a free block is large enough, or none is and the heap
cannot grow, or it has grown and the search starts again. -/
inductive Round (s : HeapState) (reserved : Set Nat) (layout : Layout) (size : Nat) : Prop
  | found (cur : Nat) (member : cur ∈ layout.nodes)
      (search : searchLoop s.mem size wordSize s.freeHead = some cur)
      (fits : size ≤ Block.size s.mem cur) : Round s reserved layout size
  | refused (small : ∀ b ∈ layout.nodes, Block.size s.mem b < size)
      (search : searchLoop s.mem size wordSize s.freeHead = some 0)
      (failed : growHeap size s = (false, s)) (none : growPages size = 0 ∨
        ∀ lower, lower + growPages size ≤ s.phys.pmm.totalFrames →
          ¬ Run s.phys.Free (growPages size) lower) : Round s reserved layout size
  | grown (small : ∀ b ∈ layout.nodes, Block.size s.mem b < size)
      (search : searchLoop s.mem size wordSize s.freeHead = some 0)
      (middle : HeapState) (between : Layout)
      (grows : Grows s middle reserved layout between size) : Round s reserved layout size

theorem HeapInv.round (inv : HeapInv s reserved layout) (size : Nat) :
    Round s reserved layout size := by
  rcases searchLoop_spec inv.freeList.linked size (inv.freeList.length_lt inv.spread) with
    ⟨missing, small⟩ | ⟨cur, member, found, fits⟩
  · rcases inv.growHeap_cases size with ⟨failed, none⟩ | ⟨middle, between, grows⟩
    · exact Round.refused small missing failed none
    · exact Round.grown small missing middle between grows
  · exact Round.found cur member found fits

section Rounds

variable {fuel size cur : Nat}

theorem kmallocLoop_found (positive : size ≠ 0)
    (search : searchLoop s.mem (alignUp size 8) wordSize s.freeHead = some cur)
    (nonzero : cur ≠ 0) :
    kmallocLoop (fuel + 1) size s =
      some (wrap64 (cur + headerSize), takeBlock cur (alignUp size 8) s) := by
  rw [kmallocLoop, if_neg positive]
  simp only [search, Option.bind_eq_bind, Option.bind_some, if_pos nonzero]

theorem HeapInv.kmallocLoop_member (inv : HeapInv s reserved layout) (fuel : Nat)
    (positive : size ≠ 0) (member : cur ∈ layout.nodes)
    (search : searchLoop s.mem (alignUp size 8) wordSize s.freeHead = some cur) :
    cur ≠ 0 ∧ kmallocLoop (fuel + 1) size s =
      some (cur + headerSize, takeBlock cur (alignUp size 8) s) := by
  have curMem := inv.freeList.subset cur member
  have nonzero := inv.tiling.nonzero cur curMem
  have placeLt := inv.block_lt curMem
  have returned := @kmallocLoop_found s fuel size cur positive search nonzero
  rw [wrap64_of_lt (by omega)] at returned
  exact ⟨nonzero, returned⟩

theorem kmallocLoop_refused (positive : size ≠ 0)
    (search : searchLoop s.mem (alignUp size 8) wordSize s.freeHead = some 0)
    (failed : growHeap (alignUp size 8) s = (false, s)) :
    kmallocLoop (fuel + 1) size s = some (0, s) := by
  rw [kmallocLoop, if_neg positive]
  simp only [search, Option.bind_eq_bind, Option.bind_some, ne_eq, not_true, if_false, failed,
    Bool.false_eq_true]

theorem kmallocLoop_grown (positive : size ≠ 0)
    (search : searchLoop s.mem (alignUp size 8) wordSize s.freeHead = some 0)
    (grown : growHeap (alignUp size 8) s = (true, s')) :
    kmallocLoop (fuel + 1) size s = kmallocLoop fuel (alignUp size 8) s' := by
  rw [kmallocLoop, if_neg positive]
  simp only [search, Option.bind_eq_bind, Option.bind_some, ne_eq, not_true, if_false, grown,
    if_true]

theorem kmallocLoop_zero (fuel : Nat) (s : HeapState) :
    kmallocLoop (fuel + 1) 0 s = some (0, s) := by
  rw [kmallocLoop, if_pos rfl]

end Rounds

theorem alignUp_alignUp (size : Nat) : alignUp (alignUp size 8) 8 = alignUp size 8 :=
  alignUp_of_dvd (dvd_alignUp size) (alignUp_lt size 8)

theorem HeapInv.nothing_allocated (inv : HeapInv s reserved layout) (size : Nat) :
    Allocates s s reserved layout layout size 0 :=
  ⟨inv, HeapEffect.refl s layout (Finset.Subset.refl _), Or.inl ⟨rfl, rfl⟩, id⟩

/-- A free block that is large enough is handed out. -/
theorem HeapInv.take_allocates {cur size : Nat} (inv : HeapInv s reserved layout)
    (member : cur ∈ layout.nodes) (fits : alignUp size 8 ≤ Block.size s.mem cur) :
    cur ≠ 0 ∧ ∃ after, Allocates s (takeBlock cur (alignUp size 8) s) reserved layout after
      (alignUp size 8) (wrap64 (cur + headerSize)) := by
  have curMem := inv.freeList.subset cur member
  have placeLt := inv.block_lt curMem
  refine ⟨inv.tiling.nonzero cur curMem, ?_⟩
  rcases inv.take member (dvd_alignUp size) fits with ⟨after, inv', effect, live, sizeLe, _, merges⟩
  refine ⟨after, inv', effect, Or.inr ⟨cur, wrap64_of_lt (by omega), ?_, live, sizeLe, fun merged =>
    (merges merged).2⟩, fun merged => (merges merged).1⟩
  exact fun used => (mem_usedBlocks.mp used).2 ((inv.free_iff cur).mp member).2

theorem Grows.allocates {middle : HeapState} {between : Layout} {size ptr : Nat}
    (grows : Grows s middle reserved layout between size)
    (allocates : Allocates middle s' reserved between after size ptr) :
    Allocates s s' reserved layout after size ptr := by
  rcases allocates with ⟨inv'', effect', result, merges'⟩
  rw [grows.live_eq] at result effect'
  refine ⟨inv'', grows.effect.trans effect', result.imp_right ?_,
    fun merged => merges' (grows.merged merged)⟩
  rintro ⟨b, place, fresh, live, fits, alone⟩
  exact ⟨b, place, fresh, live, fits, fun merged => alone (grows.merged merged)⟩

theorem HeapInv.kmallocLoop_spec (inv : HeapInv s reserved layout) (size : Nat) {fuel : Nat}
    (enough : s.phys.pmm.totalFrames < fuel + s.phys.pmm.usedFrames) :
    ∃ ptr s' after, kmallocLoop fuel size s = some (ptr, s') ∧
      Allocates s s' reserved layout after (alignUp size 8) ptr := by
  induction fuel generalizing s layout size with
  | zero =>
      have usedLe := usedFrames_le inv.space.pmm
      omega
  | succ fuel inductionHypothesis =>
      by_cases null : size = 0
      · subst null
        exact ⟨0, s, layout, kmallocLoop_zero fuel s, inv.nothing_allocated _⟩
      · cases inv.round (alignUp size 8) with
        | found cur member search fits =>
            rcases inv.take_allocates member fits with ⟨nonzero, after, allocates⟩
            exact ⟨_, _, after, kmallocLoop_found null search nonzero, allocates⟩
        | refused _ search failed _ =>
            exact ⟨0, s, layout, kmallocLoop_refused null search failed, inv.nothing_allocated _⟩
        | grown _ search middle between grows =>
            have moreUsed := grows.usedFrames_lt
            rcases inductionHypothesis grows.inv (alignUp size 8)
              (by rw [grows.effect.total_eq]; omega) with ⟨ptr, s', after, returned, allocates⟩
            rw [alignUp_alignUp] at allocates
            rw [kmallocLoop_grown null search grows.grown]
            exact ⟨ptr, s', after, returned, grows.allocates allocates⟩

/-- `kmalloc` returns NULL or a new block of at least the rounded size. -/
theorem HeapInv.kmalloc_spec (inv : HeapInv s reserved layout) (size : Nat) :
    ∃ ptr s' after, kmalloc size s = some (ptr, s') ∧
      Allocates s s' reserved layout after (alignUp size 8) ptr :=
  inv.kmallocLoop_spec size (by omega)

/-- The new region is large enough for the request it was taken for. -/
theorem le_growPages {size : Nat} (small : size + headerSize + pageSize ≤ 2 ^ 64) :
    size ≤ growPages size * pageSize - headerSize := by
  unfold growPages headerSize pageSize at *
  rw [wrap64_of_lt (show size + 48 < 2 ^ 64 by omega), wrap64_of_lt (by omega)]
  omega

/-- Where a free block is large enough, `kmalloc` returns a pointer. -/
theorem HeapInv.kmallocLoop_fits (inv : HeapInv s reserved layout) {size b : Nat} (fuel : Nat)
    (positive : size ≠ 0) (node : b ∈ layout.nodes) (fits : alignUp size 8 ≤ Block.size s.mem b) :
    ∃ cur ∈ layout.nodes, cur ≠ 0 ∧ alignUp size 8 ≤ Block.size s.mem cur ∧
      searchLoop s.mem (alignUp size 8) wordSize s.freeHead = some cur ∧
      kmallocLoop (fuel + 1) size s =
        some (cur + headerSize, takeBlock cur (alignUp size 8) s) := by
  cases inv.round (alignUp size 8) with
  | found cur member search large =>
      rcases inv.kmallocLoop_member fuel positive member search with ⟨nonzero, returned⟩
      exact ⟨cur, member, nonzero, large, search, returned⟩
  | refused small _ _ _ => exact absurd (small b node) (by omega)
  | grown small _ _ _ _ => exact absurd (small b node) (by omega)

/-- After the heap has grown there is fuel for the retry: the frames were free. -/
theorem Grows.fuel {middle : HeapState} {between : Layout} {size : Nat}
    (grows : Grows s middle reserved layout between size) :
    ∃ fuel, s.phys.pmm.totalFrames = fuel + 1 := by
  have frames := usedFrames_le grows.inv.space.pmm
  have more := grows.usedFrames_lt
  rw [grows.effect.total_eq] at frames
  exact ⟨s.phys.pmm.totalFrames - 1, by omega⟩

/-- If the heap grows by enough, the retry finds a block. -/
theorem Grows.retry {middle : HeapState} {between : Layout} {size : Nat} (fuel : Nat)
    (positive : size ≠ 0) (small : size + headerSize + pageSize ≤ 2 ^ 64) (grain : 8 ∣ size)
    (grows : Grows s middle reserved layout between size) :
    ∃ cur ∈ between.nodes, cur ≠ 0 ∧
      searchLoop middle.mem size wordSize middle.freeHead = some cur ∧
      kmallocLoop (fuel + 1) size middle = some (cur + headerSize, takeBlock cur size middle) := by
  rcases grows.room with ⟨b, node, sizeEq⟩
  have same : alignUp size 8 = size := alignUp_of_dvd grain (by unfold pageSize at small; omega)
  have fits : alignUp size 8 ≤ Block.size middle.mem b := by
    rw [same, sizeEq]
    exact le_growPages small
  rcases grows.inv.kmallocLoop_fits fuel positive node fits with
    ⟨cur, member, nonzero, _, search, served⟩
  rw [same] at search served
  exact ⟨cur, member, nonzero, search, served⟩

/-- A request of a moderate size that fails has changed nothing: after the heap
has grown for it, it succeeds. -/
theorem HeapInv.kmalloc_null (inv : HeapInv s reserved layout) {size : Nat} {s' : HeapState}
    (small : size + headerSize + 2 * pageSize ≤ 2 ^ 64) (failed : kmalloc size s = some (0, s')) :
    s' = s := by
  unfold kmalloc at failed
  by_cases null : size = 0
  · rw [null, kmallocLoop_zero] at failed
    exact (congrArg Prod.snd (Option.some.inj failed)).symm
  have rounded := @le_alignUp 3 size (by decide) (by unfold pageSize at small; omega)
  rw [show (2 : Nat) ^ 3 = 8 from rfl] at rounded
  cases inv.round (alignUp size 8) with
  | found cur member search fits =>
      rcases inv.kmallocLoop_member s.phys.pmm.totalFrames null member search with
        ⟨nonzero, served⟩
      rw [served] at failed
      have result : cur + headerSize = 0 := congrArg Prod.fst (Option.some.inj failed)
      omega
  | refused _ search refused _ =>
      rw [kmallocLoop_refused null search refused] at failed
      exact (congrArg Prod.snd (Option.some.inj failed)).symm
  | grown _ search middle between grows =>
      rcases grows.fuel with ⟨fuel, more⟩
      rcases grows.retry fuel (by omega) (by unfold pageSize at *; omega) (dvd_alignUp size) with
        ⟨cur, _, nonzero, _, served⟩
      rw [kmallocLoop_grown null search grows.grown, more, served] at failed
      have result : cur + headerSize = 0 := congrArg Prod.fst (Option.some.inj failed)
      omega

/-! ## kfree -/

/-- The result of a call that gives `blk` back. -/
structure Frees (s s' : HeapState) (reserved : Set Nat) (layout after : Layout) (blk : Nat) :
    Prop where
  inv : HeapInv s' reserved after
  effect : HeapEffect s s' layout after ((layout.live s.mem).erase blk)
  live_eq : after.live s'.mem = (layout.live s.mem).erase blk
  regions_eq : after.regions = layout.regions
  merged : layout.Merged s.mem → after.Merged s'.mem
  stale : ∀ h, layout.Stale s.mem h → after.Stale s'.mem h
  stale_self : after.Stale s'.mem blk
  head : Guarded (tagOf s.mem) blk → s'.freeHead = blk ∧
    Block.size s.mem blk ≤ Block.size s'.mem blk

/-- What coalescing with one neighbour keeps. -/
structure Coalesces (s s' : HeapState) (reserved : Set Nat) (layout after : Layout) : Prop where
  inv : HeapInv s' reserved after
  effect : HeapEffect s s' layout after (layout.live s.mem)
  live_eq : after.live s'.mem = layout.live s.mem
  regions_eq : after.regions = layout.regions
  stale : ∀ h, layout.Stale s.mem h → after.Stale s'.mem h

theorem HeapInv.coalesces_nothing (inv : HeapInv s reserved layout) :
    Coalesces s s reserved layout layout :=
  ⟨inv, HeapEffect.refl s layout (Finset.Subset.refl _), rfl, rfl, fun _ stale => stale⟩

/-- One coalescing step: merge a block with the free block behind it, if there is one. -/
theorem HeapInv.coalesce {left right : Nat} (inv : HeapInv s reserved layout)
    (leftMem : left ∈ layout.blocks) (leftFree : Block.used s.mem left = 0)
    (rightMem : right ∈ layout.blocks) (rightFree : Block.used s.mem right = 0)
    (adjacent : Block.next s.mem left = right) :
    Coalesces s (Heap.absorb left right s) reserved layout (layout.absorb right) ∧
      ∀ b ∈ layout.blocks, tagOf (Heap.absorb left right s).mem b =
        absorbTag headerSize (tagOf s.mem) left right b := by
  have leftNode := (inv.free_iff left).mpr ⟨leftMem, leftFree⟩
  have rightNode := (inv.free_iff right).mpr ⟨rightMem, rightFree⟩
  rcases inv.absorb leftNode rightNode adjacent with ⟨inv', effect, live, tags, _⟩
  exact ⟨⟨inv', effect, live, rfl, fun h => inv.absorb_stale leftNode rightNode adjacent⟩, tags⟩

/-- The right neighbour merged into a free block. -/
def coalesceRight (blk : Nat) (s : HeapState) : HeapState :=
  if Block.next s.mem blk ≠ 0 ∧ Block.used s.mem (Block.next s.mem blk) = 0 then
    absorb blk (Block.next s.mem blk) s
  else s

/-- A free block merged into its left neighbour. -/
def coalesceLeft (blk : Nat) (s : HeapState) : HeapState :=
  if Block.prev s.mem blk ≠ 0 ∧ Block.used s.mem (Block.prev s.mem blk) = 0 then
    absorb (Block.prev s.mem blk) blk s
  else s

theorem kfree_eq (ptr : Nat) (s : HeapState) :
    kfree ptr s =
      if ptr = 0 then s
      else if Block.used s.mem (sub64 ptr headerSize) = 0 then s
      else coalesceLeft (sub64 ptr headerSize)
        (coalesceRight (sub64 ptr headerSize) (releaseBlock (sub64 ptr headerSize) s)) :=
  rfl

/-- What coalescing to the right does with the block: it stays free, at its place in the list,
and does not shrink. -/
structure CoalescesRight (s s' : HeapState) (reserved : Set Nat) (layout after : Layout)
    (blk : Nat) : Prop extends Coalesces s s' reserved layout after where
  node : blk ∈ after.nodes
  merged : MergedAround (tagOf s.mem) layout.blocks blk →
    MergedBehind (tagOf s'.mem) after.blocks blk
  head : s.freeHead = blk → s'.freeHead = blk
  size_le : Block.size s.mem blk ≤ Block.size s'.mem blk
  guarded : Guarded (tagOf s.mem) blk → Guarded (tagOf s'.mem) blk

theorem HeapInv.coalesceRight {blk : Nat} (inv : HeapInv s reserved layout)
    (node : blk ∈ layout.nodes) :
    ∃ after, CoalescesRight s (Heap.coalesceRight blk s) reserved layout after blk := by
  rcases (inv.free_iff blk).mp node with ⟨member, free⟩
  have headerPos : 0 < headerSize := by decide
  unfold Heap.coalesceRight
  by_cases merges : Block.next s.mem blk ≠ 0 ∧ Block.used s.mem (Block.next s.mem blk) = 0
  · rw [if_pos merges]
    rcases inv.tiling.next_cases blk member with none | ⟨nextMem, place, _⟩
    · exact absurd none merges.1
    · rcases inv.coalesce member free nextMem merges.2 rfl with ⟨coalesces, tags⟩
      change Block.next s.mem blk = blk + headerSize + Block.size s.mem blk at place
      have different : blk ≠ Block.next s.mem blk := by
        rw [place]
        omega
      have tagsLeft := fun b (inside : b ∈ (layout.absorb (Block.next s.mem blk)).blocks) =>
        tags b (Finset.mem_of_mem_erase inside)
      have stays : blk ∈ (layout.absorb (Block.next s.mem blk)).blocks :=
        Finset.mem_erase.mpr ⟨different, member⟩
      refine ⟨_, coalesces, ?_, fun around => ?_, fun first => ?_, ?_, fun alone => ?_⟩
      · exact inv.freeList.distinct.mem_erase_iff.mpr ⟨different, node⟩
      · have behind := around.absorb inv.tiling headerPos member nextMem merges.2 rfl
        exact behind.congr tagsLeft coalesces.inv.tiling.next_mem
      · have head : s.freeHead ≠ Block.next s.mem blk := fun same => different (first.symm.trans same)
        have nonzero : s.freeHead ≠ 0 := fun null => inv.tiling.nonzero blk member (first ▸ null)
        exact (inv.freeList.linked.head_erase head nonzero coalesces.inv.freeList.linked).trans first
      · have sizeEq := congrArg Tag.size ((tags blk member).trans (absorbTag_self _ _ _ _))
        change Block.size (Heap.absorb blk (Block.next s.mem blk) s).mem blk =
          Block.size s.mem blk + (headerSize + _) at sizeEq
        omega
      · exact (alone.absorb inv.tiling headerPos member _).congr coalesces.inv.tiling stays
          tagsLeft
  · rw [if_neg merges]
    exact ⟨layout, inv.coalesces_nothing, node, fun around => around.stay merges, id, Nat.le_refl _,
      id⟩

theorem HeapInv.coalesceLeft {blk : Nat} (inv : HeapInv s reserved layout)
    (node : blk ∈ layout.nodes) :
    ∃ after, Coalesces s (Heap.coalesceLeft blk s) reserved layout after ∧
      (MergedBehind (tagOf s.mem) layout.blocks blk →
        after.Merged (Heap.coalesceLeft blk s).mem) := by
  rcases (inv.free_iff blk).mp node with ⟨member, free⟩
  unfold Heap.coalesceLeft
  by_cases merges : Block.prev s.mem blk ≠ 0 ∧ Block.used s.mem (Block.prev s.mem blk) = 0
  · rw [if_pos merges]
    rcases inv.tiling.prev_cases blk member with none | ⟨prevMem, forth⟩
    · exact absurd none merges.1
    · rcases inv.coalesce prevMem merges.2 member free forth with ⟨coalesces, tags⟩
      refine ⟨_, coalesces, fun behind => ?_⟩
      have merged := behind.absorb inv.tiling (by decide : 0 < headerSize) member free prevMem forth
      exact merged.congr (fun b inside => tags b (Finset.mem_of_mem_erase inside))
        coalesces.inv.tiling.next_mem
  · rw [if_neg merges]
    exact ⟨layout, inv.coalesces_nothing, fun behind => behind.stay inv.tiling merges⟩

/-- Behind a block in use there is nothing to merge with. -/
theorem coalesceLeft_guarded {blk : Nat} (alone : Guarded (tagOf s.mem) blk) :
    Heap.coalesceLeft blk s = s :=
  if_neg fun merges => alone merges.1 merges.2

/-- `kfree` takes a block in use back. -/
theorem HeapInv.kfree_spec {blk : Nat} (inv : HeapInv s reserved layout)
    (member : blk ∈ layout.live s.mem) :
    ∃ after, Frees s (kfree (blk + headerSize) s) reserved layout after blk := by
  rcases mem_usedBlocks.mp member with ⟨blkMem, used⟩
  have headerPos : 0 < headerSize := by decide
  have blkEq : sub64 (blk + headerSize) headerSize = blk := by
    rw [sub64_of_le (by omega)]
    omega
  have stillUsed : ¬ Block.used s.mem blk = 0 := used
  rw [kfree_eq, if_neg (by omega), blkEq, if_neg stillUsed]
  rcases inv.release member with ⟨inv1, effect1, live1, tags1, _⟩
  rcases inv.release_stale member with ⟨stale1, self1⟩
  rcases inv1.coalesceRight (List.mem_cons_self ..) with ⟨layout2, right⟩
  rcases right.inv.coalesceLeft right.node with ⟨layout3, left, merges⟩
  have effect2 := right.effect
  have effect3 := left.effect
  rw [live1] at effect2
  rw [right.live_eq, live1] at effect3
  refine ⟨layout3, left.inv, (effect1.trans effect2).trans effect3,
    left.live_eq.trans (right.live_eq.trans live1), left.regions_eq.trans right.regions_eq,
    fun merged => merges (right.merged ?_), fun h stale => left.stale h (right.stale h
      (stale1 h stale)), left.stale blk (right.stale blk self1), fun alone => ?_⟩
  · exact (merged.release blk).congr tags1 inv1.tiling.next_mem
  · have alone1 := (alone.mark inv.tiling headerPos blkMem 0).congr inv1.tiling blkMem tags1
    rw [coalesceLeft_guarded (right.guarded alone1)]
    have sizeEq : Block.size (releaseBlock blk s).mem blk = Block.size s.mem blk :=
      (congrArg Tag.size (tags1 blk blkMem)).trans (markTag_size _ _ _ _).1
    exact ⟨right.head rfl, sizeEq ▸ right.size_le⟩

/-! ## krealloc -/

/-- The copy loop of `krealloc` reads its bound from the header in every round.
While the header is not in the destination, it copies the payload. -/
theorem copyLoop_eq {mem : Mem} {blk dst src count i fuel : Nat}
    (sizeEq : Block.size mem blk = count) (apart : dst + count ≤ blk ∨ blk + headerSize ≤ dst)
    (le : i ≤ count) (enough : count < fuel + i) :
    copyLoop blk dst src fuel i (mem.copy dst src i) = some (mem.copy dst src count) := by
  induction fuel generalizing i with
  | zero => omega
  | succ fuel inductionHypothesis =>
      have bound : Block.size (mem.copy dst src i) blk = count := by
        rw [← sizeEq]
        refine Mem.load64_congr fun place low high => Mem.copy_apply_of_outside ?_
        unfold headerSize at apart
        omega
      rw [copyLoop, bound]
      by_cases more : i < count
      · rw [if_pos more, ← Mem.copy_succ]
        exact inductionHypothesis (by omega) (by omega)
      · rw [if_neg more, show i = count by omega]

/-- Assignments inside one payload keep the invariant and all other payloads. -/
theorem HeapInv.writePayload {assign : Mem → Mem} {b : Nat} (inv : HeapInv s reserved layout)
    (member : b ∈ layout.blocks)
    (only : ∀ place, (place < b + headerSize ∨ b + headerSize + Block.size s.mem b ≤ place) →
      assign s.mem place = s.mem place) :
    HeapInv (s.write assign) reserved layout ∧
      HeapEffect s (s.write assign) layout layout ((layout.live s.mem).erase b) ∧
      (∀ c ∈ layout.blocks, tagOf (assign s.mem) c = tagOf s.mem c) ∧
      (layout.Merged s.mem → layout.Merged (assign s.mem)) := by
  have headers : ∀ c ∈ layout.blocks, ∀ place, c ≤ place → place < c + headerSize →
      assign s.mem place = s.mem place := by
    intro c cMem place low high
    apply only
    by_contra inside
    rcases @payload_outside s reserved layout inv b place member (by omega) (by omega) c cMem with
      before | behind <;> omega
  have bitmap : ∀ place ∈ s.phys.bitmapBytes,
      (s.write assign).phys.mem place = s.phys.mem place := by
    intro place inBitmap
    apply only
    by_contra inside
    rcases inv.block_place member with ⟨r, rMem, low, high⟩
    exact inv.not_bitmap rMem (by omega) inBitmap
  have usedSame : ∀ frame, frame < s.phys.pmm.totalFrames →
      ((s.write assign).phys.Used frame ↔ s.phys.Used frame) := fun frame bound =>
    @used_congr s.phys (s.write assign).phys rfl bitmap frame bound
  have tags : ∀ c ∈ layout.blocks, tagOf (assign s.mem) c = tagOf s.mem c :=
    fun c cMem => (header_congr (headers c cMem)).1
  have inv' : HeapInv (s.write assign) reserved layout := by
    refine inv.frame (inv.space.congr rfl bitmap) rfl ?_ headers rfl rfl rfl
    intro frame inHeap used
    exact (usedSame frame (inv.frames_owned inHeap).2.2).mpr used
  have live : layout.live (s.write assign).mem = layout.live s.mem := usedBlocks_congr tags
  refine ⟨inv', ?_, tags, fun merged => merged.congr tags inv'.tiling.next_mem⟩
  constructor
  case live_before => exact Finset.erase_subset _ _
  case live_after =>
    rw [live]
    exact Finset.erase_subset _ _
  case size_eq =>
    intro c cMem
    have inBlocks := (mem_usedBlocks.mp (Finset.mem_of_mem_erase cMem)).1
    exact congrArg Tag.size (tags c inBlocks)
  case payload_eq =>
    intro c cMem place low high
    have inBlocks := (mem_usedBlocks.mp (Finset.mem_of_mem_erase cMem)).1
    have different := Finset.ne_of_mem_erase cMem
    apply only
    have apart := inv.blocks_apart inBlocks member different
    omega
  case outside_eq =>
    intro place _ away
    apply only
    by_contra inside
    rcases inv.block_place member with ⟨r, rMem, low, high⟩
    rcases away r rMem with before | behind <;> omega
  case regions_le => exact Finset.Subset.refl _
  case new_free => exact fun frame inHeap => Or.inl inHeap
  case used_iff =>
    intro frame bound
    rw [usedSame frame bound]
    constructor
    · exact Or.inl
    · rintro (used | ⟨inside, outside⟩)
      · exact used
      · exact absurd inside outside
  case bitmap_eq => rfl
  case total_eq => rfl
  case physOffset_eq => rfl

/-- The loop of `krealloc` copies the payload of one block to the start of another one. -/
theorem HeapInv.copyPayload {blk b : Nat} (inv : HeapInv s reserved layout)
    (blkMem : blk ∈ layout.blocks) (bMem : b ∈ layout.blocks) (different : blk ≠ b)
    (fits : Block.size s.mem blk ≤ Block.size s.mem b) :
    ∃ mem, copyLoop blk (b + headerSize) (blk + headerSize) wordSize 0 s.mem = some mem ∧
      (∀ place, (place < b + headerSize ∨ b + headerSize + Block.size s.mem b ≤ place) →
        mem place = s.mem place) ∧
      ∀ i, i < Block.size s.mem blk → mem (b + headerSize + i) = s.mem (blk + headerSize + i) := by
  have headerPos : 0 < headerSize := by decide
  have apart := inv.blocks_apart blkMem bMem different
  have sizeLt := inv.block_lt blkMem
  have copied := @copyLoop_eq s.mem blk (b + headerSize) (blk + headerSize) _ 0 wordSize rfl
    (by omega) (Nat.zero_le _) (by unfold wordSize; omega)
  rw [Mem.copy_zero] at copied
  refine ⟨_, copied, ?_, ?_⟩
  · intro place outside
    exact Mem.copy_apply_of_outside (by omega)
  · intro i bound
    exact Mem.copy_apply (by omega) (by omega)

/-- What it does to fill the block `b` with the payload of `blk` and to give `blk` back. -/
structure HandsOver (s s' : HeapState) (reserved : Set Nat) (layout after : Layout) (blk b : Nat) :
    Prop where
  inv : HeapInv s' reserved after
  effect : HeapEffect s s' layout after (((layout.live s.mem).erase b).erase blk)
  live_eq : after.live s'.mem = (layout.live s.mem).erase blk
  size_eq : Block.size s'.mem b = Block.size s.mem b
  copied : ∀ i, i < Block.size s.mem blk →
    s'.mem (b + headerSize + i) = s.mem (blk + headerSize + i)
  merged : layout.Merged s.mem → after.Merged s'.mem

/-- The second half of `krealloc`, when there is a new block. -/
theorem HeapInv.handsOver {blk b : Nat} (inv : HeapInv s reserved layout)
    (blkLive : blk ∈ layout.live s.mem) (bLive : b ∈ layout.live s.mem) (different : blk ≠ b)
    (fits : Block.size s.mem blk ≤ Block.size s.mem b) :
    ∃ mem after, copyLoop blk (b + headerSize) (blk + headerSize) wordSize 0 s.mem = some mem ∧
      HandsOver s (kfree (blk + headerSize) (s.write fun _ => mem)) reserved layout after blk b := by
  have blkMem := (mem_usedBlocks.mp blkLive).1
  have bMem := (mem_usedBlocks.mp bLive).1
  rcases inv.copyPayload blkMem bMem different fits with ⟨mem, copied, only, payload⟩
  rcases @writePayload s reserved layout (fun _ => mem) b inv bMem only with
    ⟨inv1, effect1, tags1, merges1⟩
  have live1 : layout.live (s.write fun _ => mem).mem = layout.live s.mem := usedBlocks_congr tags1
  have sizeEq : Block.size mem b = Block.size s.mem b := congrArg Tag.size (tags1 b bMem)
  have freed : blk ∈ layout.live (s.write fun _ => mem).mem := live1 ▸ blkLive
  rcases inv1.kfree_spec freed with ⟨after, frees⟩
  have effect2 := frees.effect
  rw [live1] at effect2
  have bKept : b ∈ (layout.live s.mem).erase blk :=
    Finset.mem_erase.mpr ⟨Ne.symm different, bLive⟩
  refine ⟨mem, after, copied, frees.inv, ?_, ?_, ?_, ?_, fun merged =>
    frees.merged (merges1 merged)⟩
  · exact (effect1.mono (Finset.erase_subset _ _)).trans
      (effect2.mono (Finset.erase_subset_erase _ (Finset.erase_subset _ _)))
  · rw [frees.live_eq, live1]
  · exact (effect2.size_eq b bKept).trans sizeEq
  · intro i bound
    rw [← payload i bound]
    refine effect2.payload_eq b bKept _ (by omega) ?_
    change _ < b + headerSize + Block.size mem b
    omega

/-- What `krealloc` does with the block `blk`: it fails and keeps the block, it
returns the block itself, or it returns a new block that begins with the old
payload. -/
inductive Moved (s s' : HeapState) (layout after : Layout) (blk size : Nat) : Nat → Prop
  | failed (live : after.live s'.mem = layout.live s.mem) : Moved s s' layout after blk size 0
  | stayed (same : s' = s) (live : after.live s'.mem = layout.live s.mem)
      (fits : size ≤ Block.size s'.mem blk) : Moved s s' layout after blk size (blk + headerSize)
  | moved (b : Nat) (fresh : b ∉ layout.live s.mem)
      (live : after.live s'.mem = insert b ((layout.live s.mem).erase blk))
      (fits : size ≤ Block.size s'.mem b)
      (copied : ∀ i, i < Block.size s.mem blk →
        s'.mem (b + headerSize + i) = s.mem (blk + headerSize + i)) :
      Moved s s' layout after blk size (b + headerSize)

/-- `krealloc` of a block in use to a size that is not 0. -/
theorem HeapInv.krealloc_spec {blk size : Nat} (inv : HeapInv s reserved layout)
    (member : blk ∈ layout.live s.mem) (positive : size ≠ 0) :
    ∃ ptr s' after, krealloc (blk + headerSize) size s = some (ptr, s') ∧
      HeapInv s' reserved after ∧
      HeapEffect s s' layout after (layout.live s.mem ∩ after.live s'.mem) ∧
      Moved s s' layout after blk (alignUp size 8) ptr ∧
      (layout.Merged s.mem → after.Merged s'.mem) := by
  have headerPos : 0 < headerSize := by decide
  have grain := dvd_alignUp size
  have small := alignUp_lt size 8
  have blkEq : sub64 (blk + headerSize) headerSize = blk := by
    rw [sub64_of_le (by omega)]
    omega
  unfold krealloc
  rw [if_neg (by omega), if_neg positive]
  simp only [blkEq]
  by_cases large : Block.size s.mem blk ≥ alignUp size 8
  · rw [if_pos large]
    refine ⟨_, s, layout, rfl, inv, HeapEffect.refl s layout Finset.inter_subset_left, ?_⟩
    exact ⟨Moved.stayed rfl rfl large, id⟩
  · rw [if_neg large]
    rcases inv.kmalloc_spec (alignUp size 8) with
      ⟨ptr, s1, layout1, returned, inv1, effect1, result, merges1⟩
    rw [alignUp_of_dvd grain small] at result
    simp only [returned, Option.bind_eq_bind, Option.bind_some]
    rcases result with ⟨null, live1⟩ | ⟨b, place, fresh, live1, fits, _⟩
    · rw [if_pos null]
      refine ⟨0, s1, layout1, rfl, inv1, ?_, Moved.failed live1, merges1⟩
      rw [live1, Finset.inter_self]
      exact effect1
    · rw [if_neg (by omega), place]
      have blkLive1 : blk ∈ layout1.live s1.mem := by
        rw [live1]
        exact Finset.mem_insert_of_mem member
      have bLive1 : b ∈ layout1.live s1.mem := by
        rw [live1]
        exact Finset.mem_insert_self _ _
      have different : blk ≠ b := fun same => fresh (same ▸ member)
      have sizeBlk := effect1.size_eq blk member
      rcases inv1.handsOver blkLive1 bLive1 different (by omega) with
        ⟨mem2, layout3, copied, handed⟩
      simp only [copied, Option.bind_some]
      have effect3 := handed.effect
      have live3 := handed.live_eq
      rw [live1, Finset.erase_insert fresh] at effect3
      rw [live1, Finset.erase_insert_of_ne (Ne.symm different)] at live3
      refine ⟨_, _, layout3, rfl, handed.inv, ?_, ?_, fun merged => handed.merged (merges1 merged)⟩
      · have kept : (layout.live s.mem).erase blk =
            layout.live s.mem ∩ insert b ((layout.live s.mem).erase blk) := by
          rw [Finset.inter_insert_of_notMem fresh,
            Finset.inter_eq_right.mpr (Finset.erase_subset _ _)]
        rw [live3, ← kept]
        exact (effect1.mono (Finset.erase_subset _ _)).trans effect3
      · refine Moved.moved b fresh live3 (handed.size_eq ▸ fits) ?_
        intro i bound
        rw [handed.copied i (by omega)]
        exact effect1.payload_eq blk member _ (by omega) (by omega)

/-! ## Accounting -/

/-- The loop of `heap_get_free` adds the sizes along the list. -/
theorem freeLoop_eq {mem : Mem} {prevFree : Nat → Nat} {before cur : Nat} {nodes : List Nat}
    (linked : Linked (Block.nextFree mem) prevFree before cur nodes) {fuel total : Nat}
    (enough : nodes.length < fuel) (room : total + (nodes.map (Block.size mem)).sum < 2 ^ 64) :
    freeLoop mem fuel cur total = some (total + (nodes.map (Block.size mem)).sum) := by
  induction nodes generalizing before cur fuel total with
  | nil =>
      cases fuel with
      | zero => simp at enough
      | succ fuel =>
          have ended : cur = 0 := linked
          rw [freeLoop, if_pos ended]
          rfl
  | cons node rest inductionHypothesis =>
      cases fuel with
      | zero => simp at enough
      | succ fuel =>
          rcases linked with ⟨starts, nonzero, _, tail⟩
          subst starts
          simp only [List.map_cons, List.sum_cons, ← Nat.add_assoc] at room ⊢
          rw [freeLoop, if_neg nonzero, wrap64_of_lt (by omega)]
          exact inductionHypothesis tail (by simpa using enough) room

/-- `heap_get_free` is the sum of the sizes of the free blocks. -/
theorem HeapInv.heapGetFree_eq (inv : HeapInv s reserved layout) :
    heapGetFree s = some (freeSum (tagOf s.mem) layout.blocks) := by
  have sum : (layout.nodes.map (Block.size s.mem)).sum = freeSum (tagOf s.mem) layout.blocks := by
    rw [← List.sum_toFinset _ inv.freeList.distinct]
    unfold freeSum
    refine Finset.sum_congr ?_ fun _ _ => rfl
    ext b
    rw [List.mem_toFinset, inv.free_iff, Finset.mem_filter]
    exact and_congr_right fun _ => not_not.symm
  have room := inv.freeSum_lt
  unfold heapGetFree
  rw [freeLoop_eq inv.freeList.linked (inv.freeList.length_lt inv.spread) (by omega), Nat.zero_add,
    sum]

end Calls

end Heap
end AuraKernel
