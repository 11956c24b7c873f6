import AuraKernel.Heap.Edits

namespace AuraKernel
namespace Heap

open Machine
open Physical

/-!
# Growing the heap

`grow_heap` takes a run of frames from the frame manager and makes it one free
block.  The frames were free before, so the new region meets no other region,
no reserved frame and not the bitmap.
-/

def growMem (blk size : Nat) (mem : Mem) : Mem :=
  Block.setPrevFree blk 0 (Block.setNextFree blk 0 (Block.setPrev blk 0 (Block.setNext blk 0
    (Block.setUsed blk 0 (Block.setSize blk size mem)))))

section NewHeader

variable {blocks : Finset Nat} {blk size : Nat}

theorem header_growMem (spread : Spread (insert blk blocks)) (sizeLt : size < 2 ^ 64) (mem : Mem)
    {c : Nat} (inside : c ∈ insert blk blocks) :
    tagOf (growMem blk size mem) c =
        (if c = blk then { size := size, used := 0, next := 0, prev := 0 } else tagOf mem c) ∧
      (c ≠ blk → Block.nextFree (growMem blk size mem) c = Block.nextFree mem c ∧
        Block.prevFree (growMem blk size mem) c = Block.prevFree mem c) := by
  have clear := spread.clear blk (Finset.mem_insert_self _ _) c inside
  unfold growMem
  have one := header_setSize clear mem size
  generalize Block.setSize blk size mem = mem1 at one
  have two := header_setUsed clear mem1 0
  generalize Block.setUsed blk 0 mem1 = mem2 at two
  have three := header_setNext clear mem2 0
  generalize Block.setNext blk 0 mem2 = mem3 at three
  have four := header_setPrev clear mem3 0
  generalize Block.setPrev blk 0 mem3 = mem4 at four
  have five := header_setNextFree clear mem4 0
  generalize Block.setNextFree blk 0 mem4 = mem5 at five
  have six := header_setPrevFree clear mem5 0
  refine ⟨?_, fun different => ⟨?_, ?_⟩⟩
  · rw [six.1, five.1, four.1, three.1, two.1, one.1, wrap64_of_lt sizeLt,
      wrap64_of_lt (by decide : 0 < 2 ^ 64)]
    by_cases same : c = blk
    · simp only [if_pos same]
    · simp only [if_neg same]
  · rw [six.2.1, five.2.1, if_neg different, four.2.1, three.2.1, two.2.1, one.2.1]
  · rw [six.2.2, if_neg different, five.2.2, four.2.2, three.2.2, two.2.2, one.2.2]

theorem growMem_writes (blocks : Finset Nat) (blk size : Nat) (mem : Mem) :
    WritesHeaders (insert blk blocks) mem (growMem blk size mem) := by
  have member : blk ∈ insert blk blocks := Finset.mem_insert_self _ _
  exact ((((((WritesHeaders.refl _ mem).setSize member size).setUsed member 0).setNext member
    0).setPrev member 0).setNextFree member 0).setPrevFree member 0

end NewHeader

/-! ## The frames of a region -/

theorem frame_mem_run {offset first count frame : Nat} :
    offset + first * pageSize ≤ offset + frame * pageSize ∧
        offset + frame * pageSize < offset + (first + count) * pageSize ↔
      first ≤ frame ∧ frame < first + count := by
  unfold pageSize
  omega

section Grow

variable {s : HeapState} {reserved : Set Nat} {layout : Layout}

/-- A run of free frames meets no region of the heap. -/
theorem HeapInv.run_apart (inv : HeapInv s reserved layout) {start pages : Nat}
    (positive : 0 < pages)
    (free : Run s.phys.Free pages start) :
    ∀ t ∈ layout.regions, (frameRegion s.physOffset start pages).stop ≤ t.start ∨
      t.stop ≤ (frameRegion s.physOffset start pages).start := by
  intro t tMem
  rcases inv.runs t tMem with ⟨first, count, rfl, countPos, bound, owned⟩
  by_cases overlap : start < first + count ∧ first < start + pages
  · -- a common frame would be both used and free
    have common : ∃ frame, first ≤ frame ∧ frame < first + count ∧ start ≤ frame ∧
        frame < start + pages := by
      by_cases order : first ≤ start
      · exact ⟨start, by omega, by omega, by omega, by omega⟩
      · exact ⟨first, by omega, by omega, by omega, by omega⟩
    rcases common with ⟨frame, low, high, low', high'⟩
    exact absurd (free frame low' high') ((s.phys.not_free_iff frame).mpr (owned frame low high).1)
  · simp only [frameRegion]
    unfold pageSize
    omega

/-- The number of pages `grow_heap` asks for. -/
def growPages (minPayload : Nat) : Nat :=
  wrap64 (wrap64 (minPayload + headerSize) + pageSize - 1) / pageSize

theorem growHeap_eq (minPayload : Nat) (s : HeapState) :
    growHeap minPayload s =
      if (pmmAllocContiguous (growPages minPayload) s.phys).1 = 0 then
        (false, { s with phys := (pmmAllocContiguous (growPages minPayload) s.phys).2 })
      else
        (true, freeListAdd
          (wrap64 ((pmmAllocContiguous (growPages minPayload) s.phys).1 + s.physOffset))
          (HeapState.write { s with phys := (pmmAllocContiguous (growPages minPayload) s.phys).2 }
            (growMem (wrap64 ((pmmAllocContiguous (growPages minPayload) s.phys).1 + s.physOffset))
              (sub64 (wrap64 (growPages minPayload * pageSize)) headerSize)))) := by
  rfl

/-- The layout after a region is added. -/
def Layout.grow (layout : Layout) (r : Region) : Layout :=
  { blocks := insert r.start layout.blocks
    nodes := r.start :: layout.nodes
    regions := insert r layout.regions }

/-- The tags after a region is added. -/
def growTag (tag : Nat → Tag) (r : Region) : Nat → Tag := fun b =>
  if b = r.start then wholeTag headerSize r else tag b

theorem growTag_old {tag : Nat → Tag} {r : Region} {b : Nat} (different : b ≠ r.start) :
    growTag tag r b = tag b :=
  if_neg different

theorem growTag_new (tag : Nat → Tag) (r : Region) :
    growTag tag r r.start = wholeTag headerSize r :=
  if_pos rfl

theorem usedBlocks_grow {tag : Nat → Tag} {r : Region} {blocks : Finset Nat}
    (fresh : r.start ∉ blocks) :
    usedBlocks (growTag tag r) (insert r.start blocks) = usedBlocks tag blocks := by
  ext b
  rw [mem_usedBlocks, mem_usedBlocks, Finset.mem_insert]
  by_cases isNew : b = r.start
  · rw [isNew, growTag_new]
    exact iff_of_false (fun holds => holds.2 rfl) (fun holds => fresh holds.1)
  · rw [growTag_old isNew]
    exact and_congr_left' (or_iff_right isNew)

/-- A run of frames the heap owns but has not used yet. -/
structure NewRun (s : HeapState) (reserved : Set Nat) (layout : Layout) (r : Region)
    (first count : Nat) : Prop where
  shape : r = frameRegion s.physOffset first count
  positive : 0 < count
  bound : first + count ≤ s.phys.pmm.totalFrames
  owned : ∀ frame, first ≤ frame → frame < first + count → s.phys.Used frame ∧ frame ∉ reserved
  apart : ∀ t ∈ layout.regions, r.stop ≤ t.start ∨ t.stop ≤ r.start

namespace NewRun

variable {r : Region} {first count : Nat}

theorem length (new : NewRun s reserved layout r first count) :
    r.stop = r.start + count * pageSize := by
  rw [new.shape]
  simp only [frameRegion]
  rw [Nat.add_mul, Nat.add_assoc]

theorem page_le (new : NewRun s reserved layout r first count) : r.start + pageSize ≤ r.stop := by
  have length := new.length
  have one : 1 * pageSize ≤ count * pageSize := Nat.mul_le_mul_right _ new.positive
  omega

theorem start_ne (new : NewRun s reserved layout r first count) (inv : HeapInv s reserved layout) :
    r.start ≠ 0 := by
  have notZero : first ≠ 0 := by
    rintro rfl
    exact (new.owned 0 (Nat.le_refl _) (by have := new.positive; omega)).2 inv.space.zero_reserved
  rw [new.shape]
  simp only [frameRegion]
  unfold pageSize
  omega

theorem stop_le (new : NewRun s reserved layout r first count) (inv : HeapInv s reserved layout) :
    r.stop ≤ 2 ^ 64 := by
  have space := inv.space.space_lt
  have inside : (first + count) * pageSize ≤ s.phys.pmm.totalFrames * pageSize :=
    Nat.mul_le_mul_right _ new.bound
  rw [new.shape]
  simp only [frameRegion]
  omega

theorem fresh (new : NewRun s reserved layout r first count) (inv : HeapInv s reserved layout) :
    r.start ∉ layout.blocks := by
  intro inside
  have page := new.page_le
  rcases inv.block_place inside with ⟨t, tMem, low, high⟩
  unfold headerSize at high
  unfold pageSize at page
  rcases new.apart t tMem with before | after <;> omega

theorem not_mem (new : NewRun s reserved layout r first count) : r ∉ layout.regions := by
  intro inside
  have page := new.page_le
  unfold pageSize at page
  rcases new.apart r inside with before | after <;> omega

/-- No byte of the new run belongs to the bitmap. -/
theorem not_bitmap (new : NewRun s reserved layout r first count) (inv : HeapInv s reserved layout)
    {place : Nat} (inside : r.start ≤ place ∧ place < r.stop) : place ∉ s.phys.bitmapBytes := by
  intro inBitmap
  rw [new.shape] at inside
  rcases frame_of_place inside with ⟨frame, low, high, low', high'⟩
  have bound := new.bound
  exact (new.owned frame low high).2
    (inv.space.bitmap_reserved frame (by omega) place inBitmap low' high')

theorem tiling (new : NewRun s reserved layout r first count) (inv : HeapInv s reserved layout) :
    Tiling headerSize 8 (growTag (tagOf s.mem) r) (layout.grow r).blocks
      (layout.grow r).regions := by
  have page := new.page_le
  have length := new.length
  refine inv.tiling.extend (by decide) (by decide : 8 ∣ headerSize) (new.start_ne inv) ?_ ?_
    new.apart
    (growTag_new _ r) ?_
  · rw [length, Nat.add_sub_cancel_left]
    exact Nat.dvd_mul_left_of_dvd (by decide : 8 ∣ pageSize) count
  · unfold pageSize at page
    unfold headerSize
    omega
  · intro b inside
    exact growTag_old fun same => new.fresh inv (same ▸ inside)

end NewRun

/-- Making an owned run of frames a free block. -/
theorem HeapInv.addRegion (inv : HeapInv s reserved layout) {r : Region} {first count : Nat}
    (new : NewRun s reserved layout r first count) {s' : HeapState}
    (stateEq : s' = freeListAdd r.start
      (s.write (growMem r.start (r.stop - r.start - headerSize)))) :
    HeapInv s' reserved (layout.grow r) ∧ (layout.grow r).live s'.mem = layout.live s.mem ∧
      (∀ b ∈ layout.blocks, tagOf s'.mem b = tagOf s.mem b) ∧
      tagOf s'.mem r.start = wholeTag headerSize r ∧
      WritesHeaders (layout.grow r).blocks s.mem s'.mem ∧
      (∀ place ∈ s.phys.bitmapBytes, s'.phys.mem place = s.phys.mem place) ∧
      s'.phys.pmm = s.phys.pmm ∧ s'.physOffset = s.physOffset := by
  have fresh := new.fresh inv
  have tiling := new.tiling inv
  have stops : ∀ t ∈ (layout.grow r).regions, t.stop ≤ 2 ^ 64 := by
    intro t tMem
    rcases Finset.mem_insert.mp tMem with rfl | old
    · exact new.stop_le inv
    · exact inv.region_stop_le t old
  have spread := spread_of_tiling tiling stops
  have stopLe := new.stop_le inv
  have startNe := new.start_ne inv
  have header := fun c =>
    @header_growMem layout.blocks r.start (r.stop - r.start - headerSize) spread
    (by omega) s.mem c
  have inserted : ∀ c ∈ layout.blocks, c ∈ (layout.grow r).blocks :=
    fun c inside => Finset.mem_insert_of_mem inside
  have different : ∀ c ∈ layout.blocks, c ≠ r.start :=
    fun c inside same => fresh (same ▸ inside)
  have freeList : FreeList (s.write (growMem r.start (r.stop - r.start - headerSize)))
      (layout.grow r).blocks layout.nodes := by
    refine ⟨?_, inv.freeList.distinct, fun c inside => inserted c (inv.freeList.subset c inside)⟩
    refine inv.freeList.linked.congr (fun c inside => ?_) (fun c inside => ?_)
    · exact ((header c (inserted c (inv.freeList.subset c inside))).2
        (different c (inv.freeList.subset c inside))).1
    · exact ((header c (inserted c (inv.freeList.subset c inside))).2
        (different c (inv.freeList.subset c inside))).2
  have freshNode : r.start ∉ layout.nodes := fun inside => fresh (inv.freeList.subset _ inside)
  have relinks := freeListAdd_relinks spread freeList (Finset.mem_insert_self _ _) freshNode
  rw [← stateEq] at relinks
  have tags : ∀ c ∈ (layout.grow r).blocks, tagOf s'.mem c = growTag (tagOf s.mem) r c :=
    fun c inside => (relinks.tag_eq c inside).trans (header c inside).1
  have oldTags : ∀ c ∈ layout.blocks, tagOf s'.mem c = tagOf s.mem c :=
    fun c inside => (tags c (inserted c inside)).trans (growTag_old (different c inside))
  have writes : WritesHeaders (layout.grow r).blocks s.mem s'.mem :=
    (growMem_writes layout.blocks r.start _ s.mem).trans relinks.writes
  have live : (layout.grow r).live s'.mem = layout.live s.mem :=
    (usedBlocks_congr tags).trans (usedBlocks_grow fresh)
  have pmmEq : s'.phys.pmm = s.phys.pmm := relinks.pmm_eq
  have bitmap : ∀ place ∈ s.phys.bitmapBytes, s'.phys.mem place = s.phys.mem place := by
    intro place inBitmap
    apply writes
    intro c inside
    by_contra inHeader
    rcases tiling.region c inside with ⟨t, tMem, low, high, _⟩
    rcases Finset.mem_insert.mp tMem with rfl | old
    · exact new.not_bitmap inv (by omega) inBitmap
    · exact inv.not_bitmap old (by omega) inBitmap
  have newTag : tagOf s'.mem r.start = wholeTag headerSize r :=
    (tags r.start (Finset.mem_insert_self _ _)).trans (growTag_new _ r)
  refine ⟨?_, live, oldTags, newTag, writes, bitmap, pmmEq, relinks.physOffset_eq⟩
  constructor
  case space =>
    rw [relinks.physOffset_eq]
    exact inv.space.congr pmmEq bitmap
  case tiling =>
    exact tiling.congr (fun c inside => congrArg Tag.size (tags c inside))
      (fun c inside => congrArg Tag.next (tags c inside))
      (fun c inside => congrArg Tag.prev (tags c inside))
  case runs =>
    have total : s'.phys.pmm.totalFrames = s.phys.pmm.totalFrames :=
      congrArg Pmm.totalFrames pmmEq
    have used : ∀ frame, frame < s.phys.pmm.totalFrames → s.phys.Used frame → s'.phys.Used frame :=
      fun frame bound => (used_congr pmmEq bitmap bound).mpr
    intro t tMem
    rw [total, show s'.physOffset = s.physOffset from relinks.physOffset_eq]
    rcases Finset.mem_insert.mp tMem with rfl | old
    · refine ⟨first, count, new.shape, new.positive, new.bound, fun frame low high => ?_⟩
      have bound := new.bound
      exact ⟨used frame (by omega) (new.owned frame low high).1, (new.owned frame low high).2⟩
    · rcases inv.runs t old with ⟨first', count', shape, positive, bound, owned⟩
      refine ⟨first', count', shape, positive, bound, fun frame low high => ?_⟩
      exact ⟨used frame (by omega) (owned frame low high).1, (owned frame low high).2⟩
  case freeList => exact relinks.freeList
  case free_iff =>
    intro b
    change b ∈ r.start :: layout.nodes ↔ b ∈ insert r.start layout.blocks ∧ _
    rw [List.mem_cons, Finset.mem_insert, inv.free_iff]
    by_cases isNew : b = r.start
    · have newTag := (tags r.start (Finset.mem_insert_self _ _)).trans (growTag_new _ r)
      rw [isNew]
      exact iff_of_true (Or.inl rfl) ⟨Or.inl rfl, congrArg Tag.used newTag⟩
    · simp only [isNew, false_or]
      refine and_congr_right fun inside => ?_
      rw [show Block.used s'.mem b = Block.used s.mem b from congrArg Tag.used (oldTags b inside)]
  case accounted =>
    rw [relinks.heapUsed_eq]
    refine inv.accounted.trans (usedSum_congr live fun b used => ?_).symm
    rw [oldTags b (mem_usedBlocks.mp used).1]
  case extent =>
    have newTag := (tags r.start (Finset.mem_insert_self _ _)).trans (growTag_new _ r)
    have oldExtent : extentSum headerSize (tagOf s'.mem) layout.blocks =
        extentSum headerSize (tagOf s.mem) layout.blocks := extentSum_congr headerSize oldTags
    have page := new.page_le
    have extent := inv.extent
    unfold extentSum regionSum at *
    change ∑ b ∈ insert r.start layout.blocks, _ = ∑ t ∈ insert r layout.regions, _
    rw [Finset.sum_insert fresh, Finset.sum_insert new.not_mem, oldExtent, extent, newTag]
    unfold wholeTag
    unfold pageSize at page
    unfold headerSize
    dsimp only
    omega

/-- A run of free frames, taken and made a block. -/
theorem HeapInv.grow (inv : HeapInv s reserved layout) {phys' : PhysState} {start pages : Nat}
    (positive : 0 < pages) (free : Run s.phys.Free pages start)
    (bound : start + pages ≤ s.phys.pmm.totalFrames)
    (takes : Takes s.phys phys' (Set.Ico start (start + pages))) {r : Region}
    (shape : r = frameRegion s.physOffset start pages) {s' : HeapState}
    (stateEq : s' = freeListAdd r.start (HeapState.write { s with phys := phys' }
      (growMem r.start (r.stop - r.start - headerSize)))) :
    HeapInv s' reserved (layout.grow r) ∧
      HeapEffect s s' layout (layout.grow r) (layout.live s.mem) ∧
      (layout.grow r).live s'.mem = layout.live s.mem ∧
      (∀ b ∈ layout.blocks, tagOf s'.mem b = tagOf s.mem b) ∧
      tagOf s'.mem r.start = wholeTag headerSize r := by
  have apart : ∀ t ∈ layout.regions, r.stop ≤ t.start ∨ t.stop ≤ r.start := by
    rw [shape]
    exact inv.run_apart positive free
  have headers : ∀ b ∈ layout.blocks, ∀ place, b ≤ place → place < b + headerSize →
      phys'.mem place = s.phys.mem place := by
    intro b member place low high
    rcases inv.block_place member with ⟨t, tMem, low', high'⟩
    exact takes.mem_eq place (inv.not_bitmap tMem (by omega))
  have taken : HeapInv { s with phys := phys' } reserved layout :=
    inv.frame (inv.space.takes takes) takes.total_eq
      (fun frame _ used => (takes.used_iff frame).mpr (Or.inl used)) headers rfl rfl rfl
  have new : NewRun { s with phys := phys' } reserved layout r start pages := by
    refine ⟨shape, positive, by rw [takes.total_eq]; exact bound, ?_, apart⟩
    intro frame low high
    refine ⟨(takes.used_iff frame).mpr (Or.inr ⟨low, high⟩), fun isReserved => ?_⟩
    exact (s.phys.not_free_iff frame).mpr (inv.space.reserved_used frame isReserved (by omega))
      (free frame low high)
  rcases taken.addRegion new stateEq with
    ⟨inv', live, tags, newTag, writes, bitmap, pmmEq, offsetEq⟩
  have takenTags : ∀ b ∈ layout.blocks, tagOf phys'.mem b = tagOf s.mem b :=
    fun b member => (header_congr (headers b member)).1
  have liveEq : (layout.grow r).live s'.mem = layout.live s.mem :=
    live.trans (usedBlocks_congr takenTags)
  refine ⟨inv', ?_, liveEq, fun b member => (tags b member).trans (takenTags b member), newTag⟩
  have inRun : ∀ frame, r.start ≤ s.physOffset + frame * pageSize ∧
      s.physOffset + frame * pageSize < r.stop ↔ start ≤ frame ∧ frame < start + pages := by
    intro frame
    rw [shape]
    exact frame_mem_run
  have frames : ∀ frame, frame ∈ (layout.grow r).frames s.physOffset ↔
      (start ≤ frame ∧ frame < start + pages) ∨ frame ∈ layout.frames s.physOffset := by
    intro frame
    constructor
    · rintro ⟨t, tMem, inside⟩
      rcases Finset.mem_insert.mp tMem with rfl | old
      · exact Or.inl ((inRun frame).mp inside)
      · exact Or.inr ⟨t, old, inside⟩
    · rintro (inside | ⟨t, tMem, inside⟩)
      · exact ⟨r, Finset.mem_insert_self _ _, (inRun frame).mpr inside⟩
      · exact ⟨t, Finset.mem_insert_of_mem tMem, inside⟩
  have notBefore : ∀ frame, start ≤ frame → frame < start + pages →
      frame ∉ layout.frames s.physOffset := by
    intro frame low high inHeap
    exact (s.phys.not_free_iff frame).mpr (inv.frames_owned inHeap).1 (free frame low high)
  constructor
  case live_before => exact Finset.Subset.refl _
  case live_after => exact (Finset.Subset.antisymm_iff.mp liveEq).2
  case size_eq =>
    intro b used
    have member := (mem_usedBlocks.mp used).1
    exact congrArg Tag.size ((tags b member).trans (takenTags b member))
  case payload_eq =>
    intro b used place low high
    have member := (mem_usedBlocks.mp used).1
    have size : Block.size s'.mem b = Block.size s.mem b :=
      congrArg Tag.size ((tags b member).trans (takenTags b member))
    rcases inv.block_place member with ⟨t, tMem, low', high'⟩
    rw [writes place (inv'.payload_outside (Finset.mem_insert_of_mem member) low
      (by rw [size]; exact high))]
    exact takes.mem_eq place (inv.not_bitmap tMem (by omega))
  case outside_eq =>
    intro place outside away
    rw [writes place]
    · exact takes.mem_eq place outside
    · intro c inside
      by_contra inHeader
      rcases inv'.block_place inside with ⟨t, tMem, low, high⟩
      rcases away t tMem with before | after <;> omega
  case regions_le => exact Finset.subset_insert _ _
  case new_free =>
    intro frame inside
    rcases (frames frame).mp inside with ⟨low, high⟩ | old
    · exact Or.inr ⟨by omega, free frame low high⟩
    · exact Or.inl old
  case used_iff =>
    intro frame frameBound
    rw [used_congr pmmEq bitmap (by rw [takes.total_eq]; exact frameBound), takes.used_iff,
      frames, Set.mem_Ico]
    constructor
    · rintro (used | ⟨low, high⟩)
      · exact Or.inl used
      · exact Or.inr ⟨Or.inl ⟨low, high⟩, notBefore frame low high⟩
    · rintro (used | ⟨inRun' | old, notOld⟩)
      · exact Or.inl used
      · exact Or.inr inRun'
      · exact absurd old notOld
  case bitmap_eq => exact (congrArg Pmm.bitmap pmmEq).trans takes.bitmap_eq
  case total_eq => exact (congrArg Pmm.totalFrames pmmEq).trans takes.total_eq
  case physOffset_eq => exact offsetEq

end Grow

end Heap
end AuraKernel
