import AuraKernel.Heap.Headers
import AuraKernel.Physical.FrameSpace
import Mathlib.Order.Interval.Finset.Nat

namespace AuraKernel
namespace Heap

open Machine
open Physical

/-!
# The heap invariant

The regions of the heap are runs of frames that the frame manager has handed
out.  On top of the frame space, `HeapInv` adds the tiling, the free list and
the accounting.
-/

/-- The addresses of `count` frames from frame `first` on, seen through the direct map. -/
def frameRegion (offset first count : Nat) : Region :=
  { start := offset + first * pageSize, stop := offset + (first + count) * pageSize }

/-- The frames of a set of regions. -/
def regionFrames (offset : Nat) (regions : Finset Region) : Set Nat :=
  {frame | ∃ r ∈ regions, r.start ≤ offset + frame * pageSize ∧ offset + frame * pageSize < r.stop}

/-- The blocks, the free list in order, and the regions of a heap. -/
structure Layout where
  blocks : Finset Nat
  nodes : List Nat
  regions : Finset Region

namespace Layout

def live (layout : Layout) (mem : Mem) : Finset Nat := usedBlocks (tagOf mem) layout.blocks

def frames (layout : Layout) (offset : Nat) : Set Nat := regionFrames offset layout.regions

end Layout

structure HeapInv (s : HeapState) (reserved : Set Nat) (layout : Layout) : Prop where
  space : FrameSpace s.phys s.physOffset reserved
  tiling : Tiling headerSize 8 (tagOf s.mem) layout.blocks layout.regions
  runs : ∀ r ∈ layout.regions, ∃ first count, r = frameRegion s.physOffset first count ∧
    0 < count ∧ first + count ≤ s.phys.pmm.totalFrames ∧
      ∀ frame, first ≤ frame → frame < first + count → s.phys.Used frame ∧ frame ∉ reserved
  freeList : FreeList s layout.blocks layout.nodes
  free_iff : ∀ b, b ∈ layout.nodes ↔ b ∈ layout.blocks ∧ Block.used s.mem b = 0
  accounted : s.heapUsed = usedSum (tagOf s.mem) layout.blocks
  extent : extentSum headerSize (tagOf s.mem) layout.blocks = regionSum layout.regions

/-! ## Consequences -/

theorem spread_of_tiling {tag : Nat → Tag} {blocks : Finset Nat} {regions : Finset Region}
    (tiling : Tiling headerSize 8 tag blocks regions) (stops : ∀ r ∈ regions, r.stop ≤ 2 ^ 64) :
    Spread blocks where
  nonzero := tiling.nonzero
  small := fun b member => by
    rcases tiling.region b member with ⟨r, rMem, _, high, _⟩
    have stop := stops r rMem
    unfold headerSize at high
    omega
  clear := fun b member c member' => by
    unfold Clear
    by_cases same : c = b
    · exact Or.inl same
    · have apart := tiling.apart_or member member' (Ne.symm same)
      omega

namespace HeapInv

variable {s s' : HeapState} {reserved : Set Nat} {layout : Layout}

theorem stop_le (inv : HeapInv s reserved layout) {r : Region} (rMem : r ∈ layout.regions) :
    r.stop ≤ s.physOffset + s.phys.pmm.totalFrames * pageSize := by
  rcases inv.runs r rMem with ⟨first, count, rfl, _, bound, _⟩
  exact Nat.add_le_add_left (Nat.mul_le_mul_right _ bound) _

theorem not_bitmap (inv : HeapInv s reserved layout) {r : Region} (rMem : r ∈ layout.regions)
    {place : Nat} (inside : r.start ≤ place ∧ place < r.stop) : place ∉ s.phys.bitmapBytes := by
  intro inBitmap
  rcases inv.runs r rMem with ⟨first, count, rfl, _, bound, owned⟩
  rcases frame_of_place inside with ⟨frame, low, high, low', high'⟩
  have isReserved := inv.space.bitmap_reserved frame (by omega) place inBitmap low' high'
  exact (owned frame low high).2 isReserved

/-- The heap's frames are in use and not reserved. -/
theorem frames_owned (inv : HeapInv s reserved layout) {frame : Nat}
    (inHeap : frame ∈ layout.frames s.physOffset) :
    s.phys.Used frame ∧ frame ∉ reserved ∧ frame < s.phys.pmm.totalFrames := by
  rcases inHeap with ⟨r, rMem, inside⟩
  rcases inv.runs r rMem with ⟨first, count, rfl, _, bound, owned⟩
  simp only [frameRegion] at inside
  unfold pageSize at inside
  have range : first ≤ frame ∧ frame < first + count := by omega
  exact ⟨(owned frame range.1 range.2).1, (owned frame range.1 range.2).2, by omega⟩

/-- A block with its payload lies inside a region. -/
theorem block_place (inv : HeapInv s reserved layout) {b : Nat} (member : b ∈ layout.blocks) :
    ∃ r ∈ layout.regions, r.start ≤ b ∧ b + headerSize + Block.size s.mem b ≤ r.stop := by
  rcases inv.tiling.region b member with ⟨r, rMem, low, high, _⟩
  exact ⟨r, rMem, low, high⟩

theorem block_lt (inv : HeapInv s reserved layout) {b : Nat} (member : b ∈ layout.blocks) :
    b + headerSize + Block.size s.mem b < 2 ^ 64 := by
  rcases inv.block_place member with ⟨r, rMem, _, high⟩
  have stopLe := inv.stop_le rMem
  have spaceLt := inv.space.space_lt
  omega

theorem region_stop_le (inv : HeapInv s reserved layout) :
    ∀ r ∈ layout.regions, r.stop ≤ 2 ^ 64 := fun _ rMem =>
  Nat.le_trans (inv.stop_le rMem) (Nat.le_of_lt inv.space.space_lt)

theorem spread (inv : HeapInv s reserved layout) : Spread layout.blocks :=
  spread_of_tiling inv.tiling inv.region_stop_le

/-- Of two blocks one ends before the other begins. -/
theorem blocks_apart (inv : HeapInv s reserved layout) {b c : Nat} (member : b ∈ layout.blocks)
    (member' : c ∈ layout.blocks) (different : b ≠ c) :
    b + headerSize + Block.size s.mem b ≤ c ∨ c + headerSize + Block.size s.mem c ≤ b :=
  inv.tiling.apart_or member member' different

/-- The payload of a block is outside all headers. -/
theorem payload_outside (inv : HeapInv s reserved layout) {b place : Nat}
    (member : b ∈ layout.blocks) (low : b + headerSize ≤ place)
    (high : place < b + headerSize + Block.size s.mem b) :
    OutsideHeaders layout.blocks place := by
  intro c member'
  by_cases same : b = c
  · omega
  · have apart := inv.blocks_apart member member' same
    omega

/-- All regions together leave out frame 0. -/
theorem regionSum_le (inv : HeapInv s reserved layout) :
    regionSum layout.regions + pageSize ≤ 2 ^ 64 := by
  have spaceLt := inv.space.space_lt
  by_cases empty : s.phys.pmm.totalFrames = 0
  · have noRegions : layout.regions = ∅ := by
      apply Finset.eq_empty_of_forall_notMem
      intro r rMem
      rcases inv.runs r rMem with ⟨first, count, _, positive, bound, _⟩
      omega
    rw [noRegions]
    decide
  · have inSpace : layout.regions.biUnion (fun r => Finset.Ico r.start r.stop) ⊆
        Finset.Ico (s.physOffset + pageSize)
          (s.physOffset + s.phys.pmm.totalFrames * pageSize) := by
      intro place inside
      rcases Finset.mem_biUnion.mp inside with ⟨r, rMem, inRegion⟩
      rw [Finset.mem_Ico] at inRegion ⊢
      have stopLe := inv.stop_le rMem
      rcases inv.runs r rMem with ⟨first, count, rfl, positive, bound, owned⟩
      refine ⟨?_, by omega⟩
      have notZero : first ≠ 0 := by
        rintro rfl
        exact (owned 0 (Nat.le_refl _) (by omega)).2 inv.space.zero_reserved
      have startLe : s.physOffset + 1 * pageSize ≤ s.physOffset + first * pageSize :=
        Nat.add_le_add_left (Nat.mul_le_mul_right _ (by omega)) _
      simp only [frameRegion] at inRegion
      omega
    have card := Finset.card_le_card inSpace
    rw [Finset.card_biUnion, Nat.card_Ico] at card
    · have sum : regionSum layout.regions =
          ∑ r ∈ layout.regions, (Finset.Ico r.start r.stop).card :=
        Finset.sum_congr rfl fun r _ => (Nat.card_Ico r.start r.stop).symm
      have one : 1 * pageSize ≤ s.phys.pmm.totalFrames * pageSize :=
        Nat.mul_le_mul_right _ (by omega)
      omega
    · intro r rMem t tMem different
      refine Finset.disjoint_left.mpr ?_
      intro place inR inT
      rw [Finset.mem_Ico] at inR inT
      rcases inv.tiling.regions_apart r rMem t tMem different with before | before <;> omega

theorem freeSum_lt (inv : HeapInv s reserved layout) :
    freeSum (tagOf s.mem) layout.blocks < 2 ^ 64 := by
  have total := usedSum_add_freeSum headerSize (tagOf s.mem) layout.blocks
  have extent := inv.extent
  have bound := inv.regionSum_le
  unfold pageSize at bound
  omega

theorem size_add_le (inv : HeapInv s reserved layout) {b : Nat} (member : b ∈ layout.blocks) :
    Block.size s.mem b + headerSize + pageSize ≤ 2 ^ 64 := by
  have single := Finset.single_le_sum
    (fun c _ => Nat.zero_le (headerSize + (tagOf s.mem c).size)) member
  have extent := inv.extent
  have bound := inv.regionSum_le
  unfold extentSum at extent
  change headerSize + Block.size s.mem b ≤ _ at single
  omega

/-- The heap does not notice what happens outside its headers, as long as its
frames stay in use. -/
theorem frame (inv : HeapInv s reserved layout) (space : FrameSpace s'.phys s.physOffset reserved)
    (total : s'.phys.pmm.totalFrames = s.phys.pmm.totalFrames)
    (used : ∀ frame ∈ layout.frames s.physOffset, s.phys.Used frame → s'.phys.Used frame)
    (headers : ∀ b ∈ layout.blocks, ∀ place, b ≤ place → place < b + headerSize →
      s'.mem place = s.mem place)
    (freeHead : s'.freeHead = s.freeHead) (heapUsed : s'.heapUsed = s.heapUsed)
    (physOffset : s'.physOffset = s.physOffset) : HeapInv s' reserved layout := by
  have header : ∀ b ∈ layout.blocks, tagOf s'.mem b = tagOf s.mem b ∧
      Block.nextFree s'.mem b = Block.nextFree s.mem b ∧
      Block.prevFree s'.mem b = Block.prevFree s.mem b :=
    fun b member => header_congr (headers b member)
  constructor
  case space => exact physOffset ▸ space
  case tiling =>
    exact inv.tiling.congr (fun b member => congrArg Tag.size (header b member).1)
      (fun b member => congrArg Tag.next (header b member).1)
      (fun b member => congrArg Tag.prev (header b member).1)
  case runs =>
    intro r rMem
    rcases inv.runs r rMem with ⟨first, count, shape, positive, bound, owned⟩
    refine ⟨first, count, by rw [physOffset]; exact shape, positive, by rw [total]; exact bound, ?_⟩
    intro frame low high
    refine ⟨used frame ⟨r, rMem, ?_⟩ (owned frame low high).1, (owned frame low high).2⟩
    subst shape
    simp only [frameRegion]
    have lower := Nat.mul_le_mul_right pageSize low
    have upper := Nat.mul_lt_mul_of_pos_right high (by decide : 0 < pageSize)
    omega
  case freeList =>
    refine ⟨?_, inv.freeList.distinct, inv.freeList.subset⟩
    rw [freeHead]
    exact inv.freeList.linked.congr
      (fun b member => (header b (inv.freeList.subset b member)).2.1)
      (fun b member => (header b (inv.freeList.subset b member)).2.2)
  case free_iff =>
    intro b
    rw [inv.free_iff]
    refine and_congr_right fun member => ?_
    have used := congrArg Tag.used (header b member).1
    rw [show Block.used s'.mem b = Block.used s.mem b from used]
  case accounted =>
    have same : usedBlocks (tagOf s'.mem) layout.blocks = usedBlocks (tagOf s.mem) layout.blocks :=
      Finset.filter_congr fun b member => by rw [(header b member).1]
    rw [heapUsed, inv.accounted]
    refine (usedSum_congr same fun b member => ?_).symm
    rw [(header b (mem_usedBlocks.mp member).1).1]
  case extent =>
    rw [← inv.extent]
    exact Finset.sum_congr rfl fun b member => by rw [(header b member).1]

/-- After assignments to headers only, a new tiling of the same regions and a
new free list are enough for the invariant. -/
theorem of_edit (inv : HeapInv s reserved layout) {after : Layout}
    (regions : after.regions = layout.regions) (pmm : s'.phys.pmm = s.phys.pmm)
    (physOffset : s'.physOffset = s.physOffset)
    (writes : WritesHeaders (layout.blocks ∪ after.blocks) s.mem s'.mem)
    (tiling : Tiling headerSize 8 (tagOf s'.mem) after.blocks after.regions)
    (freeList : FreeList s' after.blocks after.nodes)
    (free_iff : ∀ b, b ∈ after.nodes ↔ b ∈ after.blocks ∧ Block.used s'.mem b = 0)
    (accounted : s'.heapUsed = usedSum (tagOf s'.mem) after.blocks)
    (extent : extentSum headerSize (tagOf s'.mem) after.blocks =
      extentSum headerSize (tagOf s.mem) layout.blocks) : HeapInv s' reserved after := by
  have bitmap : ∀ place ∈ s.phys.bitmapBytes, s'.phys.mem place = s.phys.mem place := by
    intro place inBitmap
    apply writes
    intro c inside
    by_contra inHeader
    have region : ∃ r ∈ layout.regions, r.start ≤ c ∧ c + headerSize ≤ r.stop := by
      rcases Finset.mem_union.mp inside with old | new
      · rcases inv.block_place old with ⟨r, rMem, low, high⟩
        exact ⟨r, rMem, low, by omega⟩
      · rcases tiling.region c new with ⟨r, rMem, low, high, _⟩
        exact ⟨r, regions ▸ rMem, low, by omega⟩
    rcases region with ⟨r, rMem, low, high⟩
    exact inv.not_bitmap rMem (by omega) inBitmap
  constructor
  case space =>
    rw [physOffset]
    exact inv.space.congr pmm bitmap
  case tiling => exact tiling
  case runs =>
    intro r rMem
    rcases inv.runs r (regions ▸ rMem) with ⟨first, count, shape, positive, bound, owned⟩
    refine ⟨first, count, by rw [physOffset]; exact shape, positive, by rw [pmm]; exact bound, ?_⟩
    intro frame low high
    rcases owned frame low high with ⟨used, notReserved⟩
    exact ⟨(used_congr pmm bitmap (by omega)).mpr used, notReserved⟩
  case freeList => exact freeList
  case free_iff => exact free_iff
  case accounted => exact accounted
  case extent =>
    rw [extent, regions]
    exact inv.extent

end HeapInv

/-! ## Effects of heap operations -/

/-- What an operation from `s` to `s'` may do to the rest of the machine while
the blocks of `kept` stay in use. -/
structure HeapEffect (s s' : HeapState) (before after : Layout) (kept : Finset Nat) : Prop where
  live_before : kept ⊆ before.live s.mem
  live_after : kept ⊆ after.live s'.mem
  size_eq : ∀ b ∈ kept, Block.size s'.mem b = Block.size s.mem b
  payload_eq : ∀ b ∈ kept, ∀ place, b + headerSize ≤ place →
    place < b + headerSize + Block.size s.mem b → s'.mem place = s.mem place
  outside_eq : ∀ place, place ∉ s.phys.bitmapBytes →
    (∀ r ∈ after.regions, place < r.start ∨ r.stop ≤ place) → s'.mem place = s.mem place
  regions_le : before.regions ⊆ after.regions
  new_free : ∀ frame ∈ after.frames s.physOffset, frame ∈ before.frames s.physOffset ∨
    frame < s.phys.pmm.totalFrames ∧ s.phys.Free frame
  used_iff : ∀ frame, frame < s.phys.pmm.totalFrames →
    (s'.phys.Used frame ↔ s.phys.Used frame ∨
      frame ∈ after.frames s.physOffset ∧ frame ∉ before.frames s.physOffset)
  bitmap_eq : s'.phys.pmm.bitmap = s.phys.pmm.bitmap
  total_eq : s'.phys.pmm.totalFrames = s.phys.pmm.totalFrames
  physOffset_eq : s'.physOffset = s.physOffset

namespace HeapEffect

variable {s s' s'' : HeapState} {before middle after : Layout} {kept : Finset Nat}

theorem bitmapBytes_eq (effect : HeapEffect s s' before after kept) :
    s'.phys.bitmapBytes = s.phys.bitmapBytes := by
  unfold PhysState.bitmapBytes
  rw [effect.bitmap_eq, effect.total_eq]

theorem refl (s : HeapState) (layout : Layout) {kept : Finset Nat}
    (live : kept ⊆ layout.live s.mem) :
    HeapEffect s s layout layout kept where
  live_before := live
  live_after := live
  size_eq := fun _ _ => rfl
  payload_eq := fun _ _ _ _ _ => rfl
  outside_eq := fun _ _ _ => rfl
  regions_le := Finset.Subset.refl _
  new_free := fun _ member => Or.inl member
  used_iff := fun frame _ => by
    constructor
    · exact Or.inl
    · rintro (used | ⟨inside, outside⟩)
      · exact used
      · exact absurd inside outside
  bitmap_eq := rfl
  total_eq := rfl
  physOffset_eq := rfl

theorem frames_mono {offset : Nat} {first second : Layout}
    (subset : first.regions ⊆ second.regions) : first.frames offset ⊆ second.frames offset := by
  rintro frame ⟨r, rMem, inside⟩
  exact ⟨r, subset rMem, inside⟩

theorem trans (one : HeapEffect s s' before middle kept)
    (two : HeapEffect s' s'' middle after kept) :
    HeapEffect s s'' before after kept where
  live_before := one.live_before
  live_after := two.live_after
  size_eq := fun b member => (two.size_eq b member).trans (one.size_eq b member)
  payload_eq := fun b member place low high => by
    rw [two.payload_eq b member place low (by rw [one.size_eq b member]; exact high)]
    exact one.payload_eq b member place low high
  outside_eq := fun place outside away => by
    rw [two.outside_eq place (by rw [one.bitmapBytes_eq]; exact outside) away]
    exact one.outside_eq place outside fun r member => away r (two.regions_le member)
  regions_le := one.regions_le.trans two.regions_le
  new_free := fun frame member => by
    rw [← one.physOffset_eq] at member
    rcases two.new_free frame member with inMiddle | ⟨bound, free⟩
    · rw [one.physOffset_eq] at inMiddle
      exact one.new_free frame inMiddle
    · rw [one.total_eq] at bound
      refine Or.inr ⟨bound, ?_⟩
      rw [← PhysState.not_used_iff] at free ⊢
      exact fun used => free ((one.used_iff frame bound).mpr (Or.inl used))
  used_iff := fun frame bound => by
    have secondUsed := two.used_iff frame (by rw [one.total_eq]; exact bound)
    rw [one.physOffset_eq] at secondUsed
    have mono := @frames_mono s.physOffset _ _ one.regions_le frame
    have mono' := @frames_mono s.physOffset _ _ two.regions_le frame
    rw [secondUsed, one.used_iff frame bound]
    constructor
    · rintro ((used | ⟨inMiddle, notBefore⟩) | ⟨inAfter, notMiddle⟩)
      · exact Or.inl used
      · exact Or.inr ⟨mono' inMiddle, notBefore⟩
      · exact Or.inr ⟨inAfter, fun inBefore => notMiddle (mono inBefore)⟩
    · rintro (used | ⟨inAfter, notBefore⟩)
      · exact Or.inl (Or.inl used)
      · by_cases inMiddle : frame ∈ middle.frames s.physOffset
        · exact Or.inl (Or.inr ⟨inMiddle, notBefore⟩)
        · exact Or.inr ⟨inAfter, inMiddle⟩
  bitmap_eq := two.bitmap_eq.trans one.bitmap_eq
  total_eq := two.total_eq.trans one.total_eq
  physOffset_eq := two.physOffset_eq.trans one.physOffset_eq

/-- The headers before and after an operation that keeps the regions lie in them. -/
theorem headers_in_regions {reserved : Set Nat} (inv : HeapInv s reserved before)
    (inv' : HeapInv s' reserved after) (regions : after.regions = before.regions) {c : Nat}
    (inside : c ∈ before.blocks ∪ after.blocks) :
    ∃ r ∈ before.regions, r.start ≤ c ∧ c + headerSize ≤ r.stop := by
  rcases Finset.mem_union.mp inside with old | new
  · rcases inv.block_place old with ⟨r, rMem, low, high⟩
    exact ⟨r, rMem, low, by omega⟩
  · rcases inv'.block_place new with ⟨r, rMem, low, high⟩
    exact ⟨r, regions ▸ rMem, low, by omega⟩

/-- An operation that only assigns to headers and keeps the regions. -/
theorem of_writes {reserved : Set Nat} (inv : HeapInv s reserved before)
    (inv' : HeapInv s' reserved after) (pmm : s'.phys.pmm = s.phys.pmm)
    (physOffset : s'.physOffset = s.physOffset) (regions : after.regions = before.regions)
    (writes : WritesHeaders (before.blocks ∪ after.blocks) s.mem s'.mem)
    (live : kept ⊆ before.live s.mem) (live' : kept ⊆ after.live s'.mem)
    (size : ∀ b ∈ kept, Block.size s'.mem b = Block.size s.mem b) :
    HeapEffect s s' before after kept where
  live_before := live
  live_after := live'
  size_eq := size
  payload_eq := fun b member place low high => by
    apply writes
    intro c inside
    rcases Finset.mem_union.mp inside with old | new
    · exact inv.payload_outside (mem_usedBlocks.mp (live member)).1 low high c old
    · refine inv'.payload_outside (mem_usedBlocks.mp (live' member)).1 low ?_ c new
      rw [size b member]
      exact high
  outside_eq := fun place _ away => by
    apply writes
    intro c inside
    by_contra inHeader
    rcases headers_in_regions inv inv' regions inside with ⟨r, rMem, low, high⟩
    rcases away r (regions ▸ rMem) with less | greater <;> omega
  regions_le := Finset.Subset.antisymm_iff.mp regions |>.2
  new_free := fun frame member => Or.inl (by
    unfold Layout.frames at member ⊢
    rw [← regions]
    exact member)
  used_iff := fun frame bound => by
    have sameFrames : after.frames s.physOffset = before.frames s.physOffset := by
      unfold Layout.frames
      rw [regions]
    have bitmap : ∀ place ∈ s.phys.bitmapBytes, s'.phys.mem place = s.phys.mem place := by
      intro place inBitmap
      apply writes
      intro c inside
      by_contra inHeader
      rcases headers_in_regions inv inv' regions inside with ⟨r, rMem, low, high⟩
      exact inv.not_bitmap rMem (by omega) inBitmap
    rw [sameFrames, used_congr pmm bitmap bound]
    constructor
    · exact Or.inl
    · rintro (used | ⟨inAfter, notBefore⟩)
      · exact used
      · exact absurd inAfter notBefore
  bitmap_eq := congrArg Pmm.bitmap pmm
  total_eq := congrArg Pmm.totalFrames pmm
  physOffset_eq := physOffset

end HeapEffect

end Heap
end AuraKernel
