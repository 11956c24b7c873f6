import AuraKernel.Heap.Invariant

namespace AuraKernel
namespace Heap

open Machine
open Physical

/-!
# The elementary steps of the heap

`kmalloc` and `kfree` are made of five steps: cut a free block in two, take a
free block out of the list, put a block back, merge two free neighbours, and
add a region.  Each keeps the invariant, and each leaves the payload of every
block in use alone.
-/

/-! ## Splitting a free block -/

/-- The assignments of the split, for the new block at `split` with payload `rest`. -/
def splitMem (cur size split rest : Nat) (mem : Mem) : Mem :=
  let mem := Block.setSize cur size mem
  let mem := Block.setSize split rest mem
  let mem := Block.setUsed split 0 mem
  let mem := Block.setNext split (Block.next mem cur) mem
  let mem := Block.setPrev split cur mem
  let mem := Block.setPrevOf (Block.next mem cur) split mem
  Block.setNext cur split mem

theorem splitBlock_eq {cur size split rest : Nat} {s : HeapState}
    (splitEq : wrap64 (wrap64 (cur + headerSize) + size) = split)
    (restEq : sub64 (sub64 (Block.size s.mem cur) size) headerSize = rest) :
    splitBlock cur size s = freeListAdd split (s.write (splitMem cur size split rest)) := by
  unfold splitBlock
  simp only [splitEq, restEq, HeapState.write_mem, HeapState.write_write]
  refine congrArg (freeListAdd split) (HeapState.write_congr ?_)
  simp only [splitMem]

section Split

variable {blocks : Finset Nat} {mem : Mem} {cur size split rest : Nat}

/-- The headers after the first three assignments. -/
theorem header_splitMem_sizes (spread : Spread (insert split blocks)) (curMem : cur ∈ blocks)
    (different : cur ≠ split) (sizeLt : size < 2 ^ 64) (restLt : rest < 2 ^ 64) {c : Nat}
    (inside : c ∈ insert split blocks) :
    tagOf (Block.setUsed split 0 (Block.setSize split rest (Block.setSize cur size mem))) c =
        (if c = cur then { tagOf mem c with size := size }
          else if c = split then { tagOf mem c with size := rest, used := 0 }
          else tagOf mem c) ∧
      Block.nextFree (Block.setUsed split 0 (Block.setSize split rest
        (Block.setSize cur size mem))) c = Block.nextFree mem c ∧
      Block.prevFree (Block.setUsed split 0 (Block.setSize split rest
        (Block.setSize cur size mem))) c = Block.prevFree mem c := by
  have toCur := spread.clear cur (Finset.mem_insert_of_mem curMem) c inside
  have toSplit := spread.clear split (Finset.mem_insert_self _ _) c inside
  have first := header_setSize toCur mem size
  have second := header_setSize toSplit (Block.setSize cur size mem) rest
  have third := header_setUsed toSplit (Block.setSize split rest (Block.setSize cur size mem)) 0
  rw [second.1, second.2.1, second.2.2, first.1, first.2.1, first.2.2, wrap64_of_lt sizeLt,
    wrap64_of_lt restLt] at third
  refine ⟨?_, third.2.1, third.2.2⟩
  rw [third.1]
  by_cases isCur : c = cur
  · have notSplit : c ≠ split := fun same => different (isCur.symm.trans same)
    rw [if_neg notSplit, if_neg notSplit, if_pos isCur, if_pos isCur]
  · rw [if_neg isCur, if_neg isCur]
    by_cases isSplit : c = split
    · rw [if_pos isSplit, if_pos isSplit, if_pos isSplit]
    · rw [if_neg isSplit, if_neg isSplit, if_neg isSplit]

/-- The last four assignments read the successor of `cur` unchanged. -/
theorem splitMem_eq (spread : Spread (insert split blocks)) (curMem : cur ∈ blocks)
    (different : cur ≠ split) (sizeLt : size < 2 ^ 64) (restLt : rest < 2 ^ 64) :
    splitMem cur size split rest mem =
      Block.setNext cur split (Block.setPrevOf (Block.next mem cur) split
        (Block.setPrev split cur (Block.setNext split (Block.next mem cur)
          (Block.setUsed split 0 (Block.setSize split rest (Block.setSize cur size mem)))))) := by
  have curMem' : cur ∈ insert split blocks := Finset.mem_insert_of_mem curMem
  have sizes := (@header_splitMem_sizes blocks mem cur size split rest spread curMem different
    sizeLt restLt cur curMem').1
  simp only [splitMem]
  generalize Block.setUsed split 0 (Block.setSize split rest (Block.setSize cur size mem)) = sized
    at sizes
  have next3 : Block.next sized cur = Block.next mem cur := by
    have tag := congrArg Tag.next sizes
    rw [if_pos rfl] at tag
    exact tag
  have next5 : Block.next (Block.setPrev split cur (Block.setNext split (Block.next mem cur) sized))
      cur = Block.next mem cur := by
    have toCur := spread.clear split (Finset.mem_insert_self _ _) cur curMem'
    have two := congrArg Tag.next (header_setPrev toCur
      (Block.setNext split (Block.next mem cur) sized) cur).1
    rw [(header_setNext toCur sized _).1, if_neg different, if_neg different] at two
    exact two.trans next3
  simp only [next3, next5]

theorem splitMem_writes (spread : Spread (insert split blocks)) (curMem : cur ∈ blocks)
    (different : cur ≠ split) (sizeLt : size < 2 ^ 64) (restLt : rest < 2 ^ 64)
    (nextMem : Block.next mem cur ≠ 0 → Block.next mem cur ∈ blocks) :
    WritesHeaders (insert split blocks) mem (splitMem cur size split rest mem) := by
  have curMem' : cur ∈ insert split blocks := Finset.mem_insert_of_mem curMem
  have splitMem' : split ∈ insert split blocks := Finset.mem_insert_self _ _
  rw [splitMem_eq spread curMem different sizeLt restLt]
  have sized := (((WritesHeaders.refl _ mem).setSize curMem' size).setSize splitMem' rest).setUsed
    splitMem' 0
  have linked := (sized.setNext splitMem' (Block.next mem cur)).setPrev splitMem' cur
  exact (linked.setPrevOf (fun nonzero => Finset.mem_insert_of_mem (nextMem nonzero)) split).setNext
    curMem' split

/-- The headers after all seven assignments. -/
theorem header_splitMem (spread : Spread (insert split blocks)) (curMem : cur ∈ blocks)
    (fresh : split ∉ blocks) (sizeLt : size < 2 ^ 64) (restLt : rest < 2 ^ 64)
    (nextMem : Block.next mem cur ≠ 0 → Block.next mem cur ∈ blocks)
    (nextNe : Block.next mem cur ≠ cur) (splitEq : cur + headerSize + size = split)
    (restEq : Block.size mem cur - size - headerSize = rest)
    {c : Nat} (inside : c ∈ insert split blocks) :
    tagOf (splitMem cur size split rest mem) c = splitTag headerSize (tagOf mem) cur size c ∧
      Block.nextFree (splitMem cur size split rest mem) c = Block.nextFree mem c ∧
      Block.prevFree (splitMem cur size split rest mem) c = Block.prevFree mem c := by
  have curMem' : cur ∈ insert split blocks := Finset.mem_insert_of_mem curMem
  have splitMem' : split ∈ insert split blocks := Finset.mem_insert_self _ _
  have different : cur ≠ split := fun same => fresh (same ▸ curMem)
  have curLt := spread.small cur curMem'
  have splitLt := spread.small split splitMem'
  have clear := fun b member => spread.clear b member c inside
  rw [splitMem_eq spread curMem different sizeLt restLt]
  have sizes := @header_splitMem_sizes blocks mem cur size split rest spread curMem different
    sizeLt restLt c inside
  generalize Block.setUsed split 0 (Block.setSize split rest (Block.setSize cur size mem)) = sized
    at sizes
  have four := header_setNext (clear split splitMem') sized (Block.next mem cur)
  have five := header_setPrev (clear split splitMem')
    (Block.setNext split (Block.next mem cur) sized) cur
  have six := header_setPrevOf
    (fun nonzero => clear _ (Finset.mem_insert_of_mem (nextMem nonzero))) (spread.nonzero c inside)
    (Block.setPrev split cur (Block.setNext split (Block.next mem cur) sized)) split
  have seven := header_setNext (clear cur curMem') (Block.setPrevOf (Block.next mem cur) split
    (Block.setPrev split cur (Block.setNext split (Block.next mem cur) sized))) split
  refine ⟨?_, ?_, ?_⟩
  · rw [seven.1, six.1, five.1, four.1, sizes.1, wrap64_next, wrap64_of_lt curLt,
      wrap64_of_lt splitLt]
    unfold splitTag
    rw [splitEq]
    by_cases isCur : c = cur
    · subst isCur
      rw [if_pos rfl, if_neg (Ne.symm nextNe), if_neg different, if_neg different, if_pos rfl,
        if_pos rfl]
    · rw [if_neg isCur, if_neg isCur, if_neg isCur]
      by_cases isSplit : c = split
      · have notNext : c ≠ Block.next mem cur := by
          intro same
          rw [isSplit] at same
          exact fresh (same ▸ nextMem (same ▸ spread.nonzero split splitMem'))
        simp only [if_pos isSplit, if_neg notNext]
        rw [← restEq]
        rfl
      · simp only [if_neg isSplit]
        rfl
  · rw [seven.2.1, six.2.1, five.2.1, four.2.1, sizes.2.1]
  · rw [seven.2.2, six.2.2, five.2.2, four.2.2, sizes.2.2]

end Split

/-- The layout after `cur` is split behind `size` bytes. -/
def Layout.split (layout : Layout) (cur size : Nat) : Layout :=
  { blocks := insert (cur + headerSize + size) layout.blocks
    nodes := (cur + headerSize + size) :: layout.nodes
    regions := layout.regions }

/-- What a step did to the headers: their tags, the free list, and nothing
outside the headers. -/
structure Rewrites (s s' : HeapState) (blocks : Finset Nat) (tag : Nat → Tag)
    (nodes : List Nat) : Prop where
  tag_eq : ∀ b ∈ blocks, tagOf s'.mem b = tag b
  freeList : FreeList s' blocks nodes
  writes : WritesHeaders blocks s.mem s'.mem
  pmm_eq : s'.phys.pmm = s.phys.pmm
  physOffset_eq : s'.physOffset = s.physOffset

variable {s s' : HeapState} {reserved : Set Nat} {layout : Layout} {tag : Nat → Tag}
  {blocks : Finset Nat}

/-- The invariant after a step whose new tags tile the old regions, and what
the step leaves alone. -/
theorem HeapInv.of_rewrites (inv : HeapInv s reserved layout) (after : Layout)
    (rewrites : Rewrites s s' blocks tag after.nodes) (regions : after.regions = layout.regions)
    (subset : after.blocks ⊆ blocks) (nodes : ∀ b ∈ after.nodes, b ∈ after.blocks)
    (within : blocks ⊆ layout.blocks ∪ after.blocks)
    (tiling : Tiling headerSize 8 tag after.blocks layout.regions)
    (free_iff : ∀ b, b ∈ after.nodes ↔ b ∈ after.blocks ∧ (tag b).used = 0)
    (accounted : s'.heapUsed = usedSum tag after.blocks)
    (extent : extentSum headerSize tag after.blocks =
      extentSum headerSize (tagOf s.mem) layout.blocks)
    {kept : Finset Nat} (live : kept ⊆ layout.live s.mem)
    (live' : kept ⊆ usedBlocks tag after.blocks)
    (size : ∀ b ∈ kept, (tag b).size = Block.size s.mem b) :
    HeapInv s' reserved after ∧ HeapEffect s s' layout after kept ∧
      after.live s'.mem = usedBlocks tag after.blocks := by
  have tags : ∀ b ∈ after.blocks, tagOf s'.mem b = tag b :=
    fun b member => rewrites.tag_eq b (subset member)
  have liveEq : usedBlocks (tagOf s'.mem) after.blocks = usedBlocks tag after.blocks :=
    usedBlocks_congr tags
  have inv' : HeapInv s' reserved after := by
    refine inv.of_edit regions rewrites.pmm_eq rewrites.physOffset_eq ?_ ?_ ?_ ?_ ?_ ?_
    · exact rewrites.writes.mono within
    · rw [regions]
      exact tiling.congr (fun b member => congrArg Tag.size (tags b member))
        (fun b member => congrArg Tag.next (tags b member))
        (fun b member => congrArg Tag.prev (tags b member))
    · exact ⟨rewrites.freeList.linked, rewrites.freeList.distinct, nodes⟩
    · intro b
      rw [free_iff]
      refine and_congr_right fun member => ?_
      rw [← tags b member]
      rfl
    · rw [accounted]
      refine (usedSum_congr liveEq fun b member => ?_).symm
      rw [tags b (mem_usedBlocks.mp member).1]
    · rw [extentSum_congr headerSize tags]
      exact extent
  refine ⟨inv', ?_, liveEq⟩
  refine HeapEffect.of_writes inv inv' rewrites.pmm_eq rewrites.physOffset_eq regions
    (rewrites.writes.mono within) live ?_ ?_
  · intro b member
    have used := live' member
    rw [← liveEq] at used
    exact used
  · intro b member
    have inside := tags b (mem_usedBlocks.mp (live' member)).1
    exact (congrArg Tag.size inside).trans (size b member)

theorem splitBlock_rewrites {cur size : Nat} (inv : HeapInv s reserved layout)
    (member : cur ∈ layout.nodes) (room : size + headerSize ≤ Block.size s.mem cur)
    (tiling : Tiling headerSize 8 (splitTag headerSize (tagOf s.mem) cur size)
      (layout.split cur size).blocks layout.regions)
    (fresh : cur + headerSize + size ∉ layout.blocks) :
    Rewrites s (splitBlock cur size s) (layout.split cur size).blocks
      (splitTag headerSize (tagOf s.mem) cur size) (layout.split cur size).nodes ∧
      (splitBlock cur size s).heapUsed = s.heapUsed := by
  have curMem := inv.freeList.subset cur member
  have curLe := inv.block_lt curMem
  have sizeLe := inv.size_add_le curMem
  have headerPos : 0 < headerSize := by decide
  unfold pageSize at sizeLe
  have spread := spread_of_tiling tiling inv.region_stop_le
  have splitMem' : cur + headerSize + size ∈ insert (cur + headerSize + size) layout.blocks :=
    Finset.mem_insert_self _ _
  have nextMem : Block.next s.mem cur ≠ 0 → Block.next s.mem cur ∈ layout.blocks :=
    inv.tiling.next_mem cur curMem
  have nextNe : Block.next s.mem cur ≠ cur := inv.tiling.next_ne headerPos curMem
  have header := fun c => @header_splitMem layout.blocks s.mem cur size _ _ spread curMem fresh
    (by omega) (by omega) nextMem nextNe rfl rfl c
  have splitEq : wrap64 (wrap64 (cur + headerSize) + size) = cur + headerSize + size := by
    rw [wrap64_of_lt (by omega : cur + headerSize < 2 ^ 64), wrap64_of_lt (by omega)]
  have restEq : sub64 (sub64 (Block.size s.mem cur) size) headerSize =
      Block.size s.mem cur - size - headerSize := by
    rw [sub64_of_le (by omega : size ≤ Block.size s.mem cur), sub64_of_le (by omega)]
  have inserted : ∀ c ∈ layout.blocks, c ∈ insert (cur + headerSize + size) layout.blocks :=
    fun c inside => Finset.mem_insert_of_mem inside
  have freeList : FreeList (s.write (splitMem cur size (cur + headerSize + size)
      (Block.size s.mem cur - size - headerSize))) (insert (cur + headerSize + size) layout.blocks)
      layout.nodes := by
    refine ⟨?_, inv.freeList.distinct, fun c inside => inserted c (inv.freeList.subset c inside)⟩
    exact inv.freeList.linked.congr
      (fun c inside => (header c (inserted c (inv.freeList.subset c inside))).2.1)
      (fun c inside => (header c (inserted c (inv.freeList.subset c inside))).2.2)
  have freshNode : cur + headerSize + size ∉ layout.nodes :=
    fun inside => fresh (inv.freeList.subset _ inside)
  have relinks := freeListAdd_relinks spread freeList splitMem' freshNode
  rw [splitBlock_eq splitEq restEq]
  refine ⟨⟨?_, relinks.freeList, ?_, relinks.pmm_eq, relinks.physOffset_eq⟩, relinks.heapUsed_eq⟩
  · exact fun c inside => (relinks.tag_eq c inside).trans (header c inside).1
  · exact (splitMem_writes spread curMem (by omega) (by omega) (by omega) nextMem).trans
      relinks.writes

/-- Splitting a free block keeps the invariant; both parts are free, and `cur`
has exactly `size` bytes. -/
theorem HeapInv.split {cur size : Nat} (inv : HeapInv s reserved layout)
    (member : cur ∈ layout.nodes) (grain : 8 ∣ size)
    (room : size + headerSize ≤ Block.size s.mem cur) :
    HeapInv (splitBlock cur size s) reserved (layout.split cur size) ∧
      HeapEffect s (splitBlock cur size s) layout (layout.split cur size) (layout.live s.mem) ∧
      (layout.split cur size).live (splitBlock cur size s).mem = layout.live s.mem ∧
      Block.size (splitBlock cur size s).mem cur = size ∧
      ∀ b ∈ (layout.split cur size).blocks, tagOf (splitBlock cur size s).mem b =
        splitTag headerSize (tagOf s.mem) cur size b := by
  rcases (inv.free_iff cur).mp member with ⟨curMem, curFree⟩
  have headerPos : 0 < headerSize := by decide
  have fresh : cur + headerSize + size ∉ layout.blocks := by
    refine inv.tiling.not_mem_inside curMem (by omega) ?_
    change cur + headerSize + size < cur + headerSize + Block.size s.mem cur
    omega
  have tiling := inv.tiling.split headerPos (by decide : 8 ∣ headerSize) curMem grain room
  rcases splitBlock_rewrites inv member room tiling fresh with ⟨rewrites, heapUsed⟩
  have usedEq : usedBlocks (splitTag headerSize (tagOf s.mem) cur size)
      (layout.split cur size).blocks = layout.live s.mem :=
    usedBlocks_split headerPos curFree fresh
  have size_eq : ∀ b ∈ layout.live s.mem,
      (splitTag headerSize (tagOf s.mem) cur size b).size = Block.size s.mem b :=
    fun b live => splitTag_size curFree fresh live
  have curTag := rewrites.tag_eq cur (Finset.mem_insert_of_mem curMem)
  rw [splitTag_self] at curTag
  have result := inv.of_rewrites (layout.split cur size) rewrites rfl (Finset.Subset.refl _)
    rewrites.freeList.subset
    Finset.subset_union_right tiling ?_ ?_ (extentSum_split headerPos curMem fresh room)
    (Finset.Subset.refl _) (Finset.Subset.antisymm_iff.mp usedEq).2 size_eq
  · rw [usedEq] at result
    exact ⟨result.1, result.2.1, result.2.2, congrArg Tag.size curTag, rewrites.tag_eq⟩
  · intro b
    change b ∈ (cur + headerSize + size) :: layout.nodes ↔
      b ∈ insert (cur + headerSize + size) layout.blocks ∧
        (splitTag headerSize (tagOf s.mem) cur size b).used = 0
    rw [List.mem_cons, Finset.mem_insert, inv.free_iff]
    by_cases isNew : b = cur + headerSize + size
    · have newTag := congrArg Tag.used (splitTag_new headerPos (tagOf s.mem) cur size)
      rw [isNew]
      exact iff_of_true (Or.inl rfl) ⟨Or.inl rfl, newTag⟩
    · simp only [isNew, false_or]
      by_cases isCur : b = cur
      · rw [isCur, splitTag_self]
        exact Iff.rfl
      · rw [(splitTag_other isCur isNew).2]
        exact Iff.rfl
  · rw [heapUsed, inv.accounted]
    exact (usedSum_congr usedEq size_eq).symm

/-! ## Handing a block out and taking it back -/

/-- The layout after `cur` is handed out. -/
def Layout.acquire (layout : Layout) (cur : Nat) : Layout :=
  { layout with nodes := layout.nodes.erase cur }

/-- The layout after `cur` is given back. -/
def Layout.release (layout : Layout) (cur : Nat) : Layout :=
  { layout with nodes := cur :: layout.nodes }

/-- Used marks do not matter for the tiling. -/
theorem tiling_mark {regions : Finset Region} (tiling : Tiling headerSize 8 tag blocks regions)
    (cur : Nat) (used : UInt8) : Tiling headerSize 8 (markTag tag cur used) blocks regions :=
  tiling.congr (fun b _ => (markTag_size tag cur b used).1)
    (fun b _ => (markTag_size tag cur b used).2.1) (fun b _ => (markTag_size tag cur b used).2.2)

/-- Accounting stays below the size of the address space. -/
theorem HeapInv.usedSum_mark_lt (inv : HeapInv s reserved layout) (cur : Nat) (used : UInt8) :
    usedSum (markTag (tagOf s.mem) cur used) layout.blocks < 2 ^ 64 := by
  have total := usedSum_add_freeSum headerSize (markTag (tagOf s.mem) cur used) layout.blocks
  rw [extentSum_mark, inv.extent] at total
  have bound := inv.regionSum_le
  unfold pageSize at bound
  omega

/-- The header of the block marked, and all others. -/
theorem header_mark (spread : Spread blocks) {cur : Nat} (member : cur ∈ blocks) (mem : Mem)
    (used : UInt8) {c : Nat} (inside : c ∈ blocks) :
    tagOf (Block.setUsed cur used mem) c = markTag (tagOf mem) cur used c ∧
      Block.nextFree (Block.setUsed cur used mem) c = Block.nextFree mem c ∧
      Block.prevFree (Block.setUsed cur used mem) c = Block.prevFree mem c :=
  header_setUsed (spread.clear cur member c inside) mem used

theorem acquireBlock_eq (cur : Nat) (s : HeapState) :
    (acquireBlock cur s).mem = Block.setUsed cur 1 (freeListRemove cur s).mem ∧
      (acquireBlock cur s).phys.pmm = (freeListRemove cur s).phys.pmm ∧
      (acquireBlock cur s).freeHead = (freeListRemove cur s).freeHead ∧
      (acquireBlock cur s).physOffset = (freeListRemove cur s).physOffset ∧
      (acquireBlock cur s).heapUsed = wrap64 ((freeListRemove cur s).heapUsed +
        Block.size (Block.setUsed cur 1 (freeListRemove cur s).mem) cur) :=
  ⟨rfl, rfl, rfl, rfl, rfl⟩

theorem HeapInv.acquire {cur : Nat} (inv : HeapInv s reserved layout)
    (member : cur ∈ layout.nodes) :
    HeapInv (acquireBlock cur s) reserved (layout.acquire cur) ∧
      HeapEffect s (acquireBlock cur s) layout (layout.acquire cur) (layout.live s.mem) ∧
      (layout.acquire cur).live (acquireBlock cur s).mem = insert cur (layout.live s.mem) ∧
      Block.size (acquireBlock cur s).mem cur = Block.size s.mem cur ∧
      ∀ b ∈ layout.blocks, tagOf (acquireBlock cur s).mem b = markTag (tagOf s.mem) cur 1 b := by
  rcases (inv.free_iff cur).mp member with ⟨curMem, curFree⟩
  have relinks := freeListRemove_relinks inv.spread inv.freeList member
  rcases acquireBlock_eq cur s with ⟨memEq, pmmEq, headEq, offsetEq, usedEq⟩
  have header := fun c => @header_mark layout.blocks inv.spread cur curMem
    (freeListRemove cur s).mem 1 c
  have tags : ∀ c ∈ layout.blocks,
      tagOf (acquireBlock cur s).mem c = markTag (tagOf s.mem) cur 1 c := by
    intro c inside
    rw [memEq, (header c inside).1]
    unfold markTag
    rw [relinks.tag_eq c inside]
  have rewrites : Rewrites s (acquireBlock cur s) layout.blocks (markTag (tagOf s.mem) cur 1)
      (layout.nodes.erase cur) := by
    refine ⟨tags, ⟨?_, relinks.freeList.distinct, relinks.freeList.subset⟩, ?_,
      pmmEq.trans relinks.pmm_eq, offsetEq.trans relinks.physOffset_eq⟩
    · rw [headEq, memEq]
      exact relinks.freeList.linked.congr
        (fun c inside => (header c (relinks.freeList.subset c inside)).2.1)
        (fun c inside => (header c (relinks.freeList.subset c inside)).2.2)
    · rw [memEq]
      exact relinks.writes.setUsed curMem 1
  have curSize : Block.size (acquireBlock cur s).mem cur = Block.size s.mem cur :=
    (congrArg Tag.size (tags cur curMem)).trans (markTag_size _ _ _ _).1
  have curFree' : (tagOf s.mem cur).used = 0 := curFree
  have sum := usedSum_acquire curMem curFree' (by decide : (1 : UInt8) ≠ 0)
  have acquired := @usedBlocks_acquire (tagOf s.mem) layout.blocks cur 1 curMem (by decide)
  have step : HeapInv (acquireBlock cur s) reserved (layout.acquire cur) ∧
      HeapEffect s (acquireBlock cur s) layout (layout.acquire cur) (layout.live s.mem) ∧
      (layout.acquire cur).live (acquireBlock cur s).mem =
        usedBlocks (markTag (tagOf s.mem) cur 1) layout.blocks := by
    refine inv.of_rewrites (layout.acquire cur) rewrites rfl (Finset.Subset.refl _)
      rewrites.freeList.subset
      Finset.subset_union_right (tiling_mark inv.tiling cur 1) ?_ ?_ (extentSum_mark cur 1)
      (Finset.Subset.refl _) ?_ (fun b _ => (markTag_size _ _ _ _).1)
    · intro b
      change b ∈ layout.nodes.erase cur ↔
        b ∈ layout.blocks ∧ (markTag (tagOf s.mem) cur 1 b).used = 0
      rw [inv.freeList.distinct.mem_erase_iff, inv.free_iff, markTag_used]
      by_cases same : b = cur
      · rw [if_pos same]
        exact iff_of_false (fun holds => holds.1 same) (fun holds => absurd holds.2 (by decide))
      · rw [if_neg same]
        exact and_iff_right same
    · have bound := inv.usedSum_mark_lt cur 1
      rw [usedEq, ← memEq, curSize, relinks.heapUsed_eq, inv.accounted]
      change wrap64 (usedSum (tagOf s.mem) layout.blocks + (tagOf s.mem cur).size) =
        usedSum (markTag (tagOf s.mem) cur 1) layout.blocks
      rw [← sum, wrap64_of_lt bound]
    · change _ ⊆ usedBlocks (markTag (tagOf s.mem) cur 1) layout.blocks
      rw [acquired]
      exact Finset.subset_insert _ _
  rw [acquired] at step
  exact ⟨step.1, step.2.1, step.2.2, curSize, tags⟩

theorem releaseBlock_eq (blk : Nat) (s : HeapState) :
    ∃ marked : HeapState, releaseBlock blk s = freeListAdd blk marked ∧
      marked.mem = Block.setUsed blk 0 s.mem ∧ marked.freeHead = s.freeHead ∧
      marked.phys.pmm = s.phys.pmm ∧ marked.physOffset = s.physOffset ∧
      marked.heapUsed = sub64 s.heapUsed (Block.size (Block.setUsed blk 0 s.mem) blk) :=
  ⟨_, rfl, rfl, rfl, rfl, rfl, rfl⟩

theorem HeapInv.release {blk : Nat} (inv : HeapInv s reserved layout)
    (member : blk ∈ layout.live s.mem) :
    HeapInv (releaseBlock blk s) reserved (layout.release blk) ∧
      HeapEffect s (releaseBlock blk s) layout (layout.release blk)
        ((layout.live s.mem).erase blk) ∧
      (layout.release blk).live (releaseBlock blk s).mem = (layout.live s.mem).erase blk ∧
      (∀ b ∈ layout.blocks, tagOf (releaseBlock blk s).mem b = markTag (tagOf s.mem) blk 0 b) ∧
      WritesHeaders layout.blocks s.mem (releaseBlock blk s).mem := by
  rcases mem_usedBlocks.mp member with ⟨blkMem, blkUsed⟩
  have fresh : blk ∉ layout.nodes := fun inside => blkUsed ((inv.free_iff blk).mp inside).2
  rcases releaseBlock_eq blk s with ⟨marked, stateEq, memEq, headEq, pmmEq, offsetEq, usedEq⟩
  have header := fun c => @header_mark layout.blocks inv.spread blk blkMem s.mem 0 c
  have freeList : FreeList marked layout.blocks layout.nodes := by
    refine ⟨?_, inv.freeList.distinct, inv.freeList.subset⟩
    rw [headEq, memEq]
    exact inv.freeList.linked.congr
      (fun c inside => (header c (inv.freeList.subset c inside)).2.1)
      (fun c inside => (header c (inv.freeList.subset c inside)).2.2)
  have relinks := freeListAdd_relinks inv.spread freeList blkMem fresh
  rw [← stateEq] at relinks
  have rewrites : Rewrites s (releaseBlock blk s) layout.blocks (markTag (tagOf s.mem) blk 0)
      (blk :: layout.nodes) := by
    refine ⟨?_, relinks.freeList, ?_, relinks.pmm_eq.trans pmmEq,
      relinks.physOffset_eq.trans offsetEq⟩
    · intro c inside
      rw [relinks.tag_eq c inside, memEq, (header c inside).1]
    · refine WritesHeaders.trans ?_ relinks.writes
      rw [memEq]
      exact (WritesHeaders.refl _ _).setUsed blkMem 0
  have sum := usedSum_release member
  have released := @usedBlocks_release (tagOf s.mem) layout.blocks blk
  have step : HeapInv (releaseBlock blk s) reserved (layout.release blk) ∧
      HeapEffect s (releaseBlock blk s) layout (layout.release blk)
        ((layout.live s.mem).erase blk) ∧
      (layout.release blk).live (releaseBlock blk s).mem =
        usedBlocks (markTag (tagOf s.mem) blk 0) layout.blocks := by
    refine inv.of_rewrites (layout.release blk) rewrites rfl (Finset.Subset.refl _)
      rewrites.freeList.subset
      Finset.subset_union_right (tiling_mark inv.tiling blk 0) ?_ ?_ (extentSum_mark blk 0)
      (Finset.erase_subset _ _) ?_ (fun b _ => (markTag_size _ _ _ _).1)
    · intro b
      change b ∈ blk :: layout.nodes ↔
        b ∈ layout.blocks ∧ (markTag (tagOf s.mem) blk 0 b).used = 0
      rw [List.mem_cons, inv.free_iff, markTag_used]
      by_cases same : b = blk
      · rw [if_pos same]
        exact iff_of_true (Or.inl same) ⟨same ▸ blkMem, rfl⟩
      · rw [if_neg same]
        exact or_iff_right same
    · have blkSize : Block.size (Block.setUsed blk 0 s.mem) blk = (tagOf s.mem blk).size :=
        (congrArg Tag.size (header blk blkMem).1).trans (markTag_size _ _ _ _).1
      change _ = usedSum (markTag (tagOf s.mem) blk 0) layout.blocks
      rw [relinks.heapUsed_eq, usedEq, blkSize, inv.accounted, ← sum, sub64_of_le (by omega)]
      omega
    · change _ ⊆ usedBlocks (markTag (tagOf s.mem) blk 0) layout.blocks
      rw [released]
      exact Finset.Subset.refl _
  rw [released] at step
  exact ⟨step.1, step.2.1, step.2.2, rewrites.tag_eq, rewrites.writes⟩

/-! ## Merging two neighbours -/

def absorbMem (left right : Nat) (mem : Mem) : Mem :=
  let mem := Block.setSize left
    (wrap64 (Block.size mem left + wrap64 (headerSize + Block.size mem right))) mem
  let mem := Block.setNext left (Block.next mem right) mem
  Block.setPrevOf (Block.next mem right) left mem

theorem absorb_eq (left right : Nat) (s : HeapState) :
    absorb left right s = (freeListRemove right s).write (absorbMem left right) := by
  unfold absorb
  simp only [HeapState.write_mem, HeapState.write_write]
  refine HeapState.write_congr ?_
  simp only [absorbMem]

section Absorb

variable {mem : Mem} {left right : Nat}

/-- The last two assignments read the successor of `right` unchanged. -/
theorem absorbMem_eq (spread : Spread blocks) (leftMem : left ∈ blocks) (rightMem : right ∈ blocks)
    (different : right ≠ left) (fits : Block.size mem left + (headerSize + Block.size mem right) <
      2 ^ 64) :
    absorbMem left right mem =
      Block.setPrevOf (Block.next mem right) left (Block.setNext left (Block.next mem right)
        (Block.setSize left (Block.size mem left + (headerSize + Block.size mem right)) mem)) := by
  have sumEq : wrap64 (Block.size mem left + wrap64 (headerSize + Block.size mem right)) =
      Block.size mem left + (headerSize + Block.size mem right) := by
    rw [wrap64_of_lt (by omega : headerSize + Block.size mem right < 2 ^ 64), wrap64_of_lt fits]
  have toRight := spread.clear left leftMem right rightMem
  have next1 : Block.next (Block.setSize left
      (Block.size mem left + (headerSize + Block.size mem right)) mem) right =
      Block.next mem right := by
    have tag := congrArg Tag.next (header_setSize toRight mem
      (Block.size mem left + (headerSize + Block.size mem right))).1
    rw [if_neg different] at tag
    exact tag
  have next2 : Block.next (Block.setNext left (Block.next mem right) (Block.setSize left
      (Block.size mem left + (headerSize + Block.size mem right)) mem)) right =
      Block.next mem right := by
    have tag := congrArg Tag.next (header_setNext toRight (Block.setSize left
      (Block.size mem left + (headerSize + Block.size mem right)) mem) (Block.next mem right)).1
    rw [if_neg different] at tag
    exact tag.trans next1
  simp only [absorbMem, sumEq, next1, next2]

theorem header_absorbMem (spread : Spread blocks) (leftMem : left ∈ blocks)
    (rightMem : right ∈ blocks) (different : right ≠ left)
    (nextMem : Block.next mem right ≠ 0 → Block.next mem right ∈ blocks)
    (nextNe : Block.next mem right ≠ left)
    (fits : Block.size mem left + (headerSize + Block.size mem right) < 2 ^ 64)
    {c : Nat} (inside : c ∈ blocks) :
    tagOf (absorbMem left right mem) c = absorbTag headerSize (tagOf mem) left right c ∧
      Block.nextFree (absorbMem left right mem) c = Block.nextFree mem c ∧
      Block.prevFree (absorbMem left right mem) c = Block.prevFree mem c := by
  have leftLt := spread.small left leftMem
  have toLeft := spread.clear left leftMem c inside
  rw [absorbMem_eq spread leftMem rightMem different fits]
  have one := header_setSize toLeft mem
    (Block.size mem left + (headerSize + Block.size mem right))
  generalize Block.setSize left (Block.size mem left + (headerSize + Block.size mem right)) mem =
    sized at one
  have two := header_setNext toLeft sized (Block.next mem right)
  have three := header_setPrevOf (fun nonzero => spread.clear _ (nextMem nonzero) c inside)
    (spread.nonzero c inside) (Block.setNext left (Block.next mem right) sized) left
  refine ⟨?_, ?_, ?_⟩
  · rw [three.1, two.1, one.1, wrap64_of_lt fits, wrap64_next, wrap64_of_lt leftLt]
    unfold absorbTag
    by_cases isLeft : c = left
    · subst isLeft
      simp only [if_true, if_neg (Ne.symm nextNe)]
      rfl
    · simp only [if_neg isLeft]
      rfl
  · rw [three.2.1, two.2.1, one.2.1]
  · rw [three.2.2, two.2.2, one.2.2]

theorem absorbMem_writes (spread : Spread blocks) (leftMem : left ∈ blocks)
    (rightMem : right ∈ blocks) (different : right ≠ left)
    (nextMem : Block.next mem right ≠ 0 → Block.next mem right ∈ blocks)
    (fits : Block.size mem left + (headerSize + Block.size mem right) < 2 ^ 64) :
    WritesHeaders blocks mem (absorbMem left right mem) := by
  rw [absorbMem_eq spread leftMem rightMem different fits]
  exact (((WritesHeaders.refl _ _).setSize leftMem _).setNext leftMem _).setPrevOf nextMem left

end Absorb

/-- The layout after `right` is merged into its left neighbour. -/
def Layout.absorb (layout : Layout) (right : Nat) : Layout :=
  { blocks := layout.blocks.erase right
    nodes := layout.nodes.erase right
    regions := layout.regions }

/-- Merging takes the right block off the free list and changes the headers of its neighbours. -/
theorem absorb_rewrites {left right : Nat} (inv : HeapInv s reserved layout)
    (leftMem : left ∈ layout.blocks) (rightNode : right ∈ layout.nodes)
    (adjacent : Block.next s.mem left = right) :
    Rewrites s (absorb left right s) layout.blocks
      (absorbTag headerSize (tagOf s.mem) left right) (layout.nodes.erase right) ∧
      (absorb left right s).heapUsed = s.heapUsed := by
  have rightMem := inv.freeList.subset right rightNode
  have headerPos : 0 < headerSize := by decide
  have rightEq : right = left + headerSize + Block.size s.mem left :=
    (inv.tiling.at_next leftMem rightMem adjacent).1
  have different : right ≠ left := by omega
  have rightLe := inv.block_lt rightMem
  have nextMem : Block.next s.mem right ≠ 0 → Block.next s.mem right ∈ layout.blocks :=
    inv.tiling.next_mem right rightMem
  have nextNe : Block.next s.mem right ≠ left :=
    inv.tiling.next_ne_of_le headerPos rightMem leftMem (by omega)
  have relinks := freeListRemove_relinks inv.spread inv.freeList rightNode
  rw [absorb_eq]
  generalize freeListRemove right s = removed at relinks
  have leftTag := relinks.tag_eq left leftMem
  have rightTag := relinks.tag_eq right rightMem
  have leftSize : Block.size removed.mem left = Block.size s.mem left := congrArg Tag.size leftTag
  have rightSize : Block.size removed.mem right = Block.size s.mem right :=
    congrArg Tag.size rightTag
  have rightNext : Block.next removed.mem right = Block.next s.mem right :=
    congrArg Tag.next rightTag
  have fits : Block.size removed.mem left + (headerSize + Block.size removed.mem right) <
      2 ^ 64 := by
    rw [leftSize, rightSize]
    omega
  rw [← rightNext] at nextMem nextNe
  have header := fun c => @header_absorbMem layout.blocks removed.mem left right inv.spread leftMem
    rightMem different nextMem nextNe fits c
  refine ⟨⟨?_, ⟨?_, relinks.freeList.distinct, relinks.freeList.subset⟩, ?_, relinks.pmm_eq,
    relinks.physOffset_eq⟩, relinks.heapUsed_eq⟩
  · intro c inside
    refine ((header c inside).1).trans ?_
    unfold absorbTag
    rw [leftTag, rightTag, relinks.tag_eq c inside]
  · exact relinks.freeList.linked.congr
      (fun c inside => (header c (relinks.freeList.subset c inside)).2.1)
      (fun c inside => (header c (relinks.freeList.subset c inside)).2.2)
  · exact relinks.writes.trans
      (absorbMem_writes inv.spread leftMem rightMem different nextMem fits)

theorem HeapInv.absorb {left right : Nat} (inv : HeapInv s reserved layout)
    (leftNode : left ∈ layout.nodes) (rightNode : right ∈ layout.nodes)
    (adjacent : Block.next s.mem left = right) :
    HeapInv (Heap.absorb left right s) reserved (layout.absorb right) ∧
      HeapEffect s (Heap.absorb left right s) layout (layout.absorb right) (layout.live s.mem) ∧
      (layout.absorb right).live (Heap.absorb left right s).mem = layout.live s.mem ∧
      (∀ b ∈ layout.blocks, tagOf (Heap.absorb left right s).mem b =
        absorbTag headerSize (tagOf s.mem) left right b) ∧
      WritesHeaders layout.blocks s.mem (Heap.absorb left right s).mem := by
  rcases (inv.free_iff left).mp leftNode with ⟨leftMem, leftFree⟩
  rcases (inv.free_iff right).mp rightNode with ⟨rightMem, rightFree⟩
  have headerPos : 0 < headerSize := by decide
  have rightEq : right = left + headerSize + Block.size s.mem left :=
    (inv.tiling.at_next leftMem rightMem adjacent).1
  have different : left ≠ right := by omega
  rcases absorb_rewrites inv leftMem rightNode adjacent with ⟨rewrites, heapUsed⟩
  have usedEq := @usedBlocks_absorb headerSize (tagOf s.mem) layout.blocks left right leftFree
    rightFree
  have step : HeapInv (Heap.absorb left right s) reserved (layout.absorb right) ∧
      HeapEffect s (Heap.absorb left right s) layout (layout.absorb right) (layout.live s.mem) ∧
      (layout.absorb right).live (Heap.absorb left right s).mem =
        usedBlocks (absorbTag headerSize (tagOf s.mem) left right) (layout.blocks.erase right) := by
    refine inv.of_rewrites (layout.absorb right) rewrites rfl (Finset.erase_subset _ _) ?_
      Finset.subset_union_left
      (inv.tiling.absorb headerPos (by decide : 8 ∣ headerSize) leftMem rightMem adjacent) ?_ ?_
      (extentSum_absorb leftMem rightMem different) (Finset.Subset.refl _)
      (Finset.Subset.antisymm_iff.mp usedEq).2 (fun b live => absorbTag_size leftFree live)
    · intro b inside
      rcases (inv.freeList.distinct.mem_erase_iff).mp inside with ⟨notRight, node⟩
      exact Finset.mem_erase.mpr ⟨notRight, inv.freeList.subset b node⟩
    · intro b
      change b ∈ layout.nodes.erase right ↔ b ∈ layout.blocks.erase right ∧
        (absorbTag headerSize (tagOf s.mem) left right b).used = 0
      rw [inv.freeList.distinct.mem_erase_iff, Finset.mem_erase, inv.free_iff, and_assoc]
      refine and_congr_right fun _ => and_congr_right fun _ => ?_
      by_cases isLeft : b = left
      · rw [isLeft, absorbTag_self]
        exact Iff.rfl
      · rw [(absorbTag_other isLeft).2]
        exact Iff.rfl
    · rw [heapUsed, inv.accounted]
      exact (usedSum_congr usedEq fun b live => absorbTag_size leftFree live).symm
  rw [usedEq] at step
  exact ⟨step.1, step.2.1, step.2.2, rewrites.tag_eq, rewrites.writes⟩

/-! ## Stale headers -/

/-- The header at `h` is that of a free block, or bytes inside the payload of one that are left
of an earlier block; the mark in it says free. -/
def Layout.Stale (layout : Layout) (mem : Mem) (h : Nat) : Prop :=
  Block.used mem h = 0 ∧ ∃ b ∈ layout.blocks, Block.used mem b = 0 ∧
    (h = b ∨ b + headerSize ≤ h ∧ h ≤ b + Block.size mem b)

section Stale

variable {after : Layout} {mem' : Mem} {h : Nat}

/-- A stale header stays one when assignments go to headers only, free blocks stay free, and
each of them ends up in a free block that covers it. -/
theorem HeapInv.stale_of_writes (inv : HeapInv s reserved layout)
    (writes : WritesHeaders layout.blocks s.mem mem')
    (covers : ∀ b ∈ layout.blocks, Block.used s.mem b = 0 → Block.used mem' b = 0 ∧
      ∃ c ∈ after.blocks, Block.used mem' c = 0 ∧ (c = b ∨ c + headerSize ≤ b) ∧
        b + Block.size s.mem b ≤ c + Block.size mem' c)
    (stale : layout.Stale s.mem h) : after.Stale mem' h := by
  rcases stale with ⟨marked, b, member, free, place⟩
  rcases covers b member free with ⟨stillFree, c, member', free', below, above⟩
  refine ⟨?_, c, member', free', ?_⟩
  · rcases place with rfl | ⟨low, high⟩
    · exact stillFree
    · have outside := inv.payload_outside member (show b + headerSize ≤ h + 8 by omega)
        (show h + 8 < b + headerSize + Block.size s.mem b by unfold headerSize; omega)
      exact (writes _ outside).trans marked
  · rcases place with rfl | ⟨low, high⟩
    · exact below.imp Eq.symm fun inside => ⟨inside, by omega⟩
    · exact Or.inr ⟨by omega, by omega⟩

theorem HeapInv.release_stale {blk : Nat} (inv : HeapInv s reserved layout)
    (member : blk ∈ layout.live s.mem) :
    (∀ h, layout.Stale s.mem h → (layout.release blk).Stale (releaseBlock blk s).mem h) ∧
      (layout.release blk).Stale (releaseBlock blk s).mem blk := by
  rcases mem_usedBlocks.mp member with ⟨blkMem, _⟩
  rcases inv.release member with ⟨_, _, _, tags, writes⟩
  have markedFree : Block.used (releaseBlock blk s).mem blk = 0 := by
    refine (congrArg Tag.used (tags blk blkMem)).trans ?_
    rw [markTag_used, if_pos rfl]
  refine ⟨fun h stale => inv.stale_of_writes writes (fun b inside free => ?_) stale,
    markedFree, blk, blkMem, markedFree, Or.inl rfl⟩
  have stillFree : Block.used (releaseBlock blk s).mem b = 0 := by
    refine (congrArg Tag.used (tags b inside)).trans ?_
    rw [markTag_used]
    split
    · rfl
    · exact free
  have sameSize : Block.size (releaseBlock blk s).mem b = Block.size s.mem b :=
    (congrArg Tag.size (tags b inside)).trans (markTag_size _ _ _ _).1
  exact ⟨stillFree, b, inside, stillFree, Or.inl rfl, by rw [sameSize]⟩

theorem HeapInv.absorb_stale {left right : Nat} (inv : HeapInv s reserved layout)
    (leftNode : left ∈ layout.nodes) (rightNode : right ∈ layout.nodes)
    (adjacent : Block.next s.mem left = right) (stale : layout.Stale s.mem h) :
    (layout.absorb right).Stale (Heap.absorb left right s).mem h := by
  rcases (inv.free_iff left).mp leftNode with ⟨leftMem, leftFree⟩
  rcases (inv.free_iff right).mp rightNode with ⟨rightMem, _⟩
  rcases inv.absorb leftNode rightNode adjacent with ⟨_, _, _, tags, writes⟩
  have rightEq := (inv.tiling.at_next leftMem rightMem adjacent).1
  change right = left + headerSize + Block.size s.mem left at rightEq
  have headerPos : 0 < headerSize := by decide
  have different : left ≠ right := by omega
  have leftTag := (tags left leftMem).trans (absorbTag_self _ _ _ _)
  have leftUsed : Block.used (Heap.absorb left right s).mem left = 0 :=
    (congrArg Tag.used leftTag).trans leftFree
  have leftSize : Block.size (Heap.absorb left right s).mem left =
      Block.size s.mem left + (headerSize + Block.size s.mem right) := congrArg Tag.size leftTag
  have leftInside : left ∈ layout.blocks.erase right := Finset.mem_erase.mpr ⟨different, leftMem⟩
  refine inv.stale_of_writes writes (fun b inside free => ?_) stale
  by_cases isLeft : b = left
  · subst isLeft
    exact ⟨leftUsed, b, leftInside, leftUsed, Or.inl rfl, by omega⟩
  have other := @absorbTag_other headerSize (tagOf s.mem) left right b isLeft
  have stillFree : Block.used (Heap.absorb left right s).mem b = 0 :=
    (congrArg Tag.used (tags b inside)).trans (other.2.trans free)
  have sameSize : Block.size (Heap.absorb left right s).mem b = Block.size s.mem b :=
    (congrArg Tag.size (tags b inside)).trans other.1
  refine ⟨stillFree, ?_⟩
  by_cases isRight : b = right
  · -- the block that disappears is covered by its left neighbour
    subst isRight
    exact ⟨left, leftInside, leftUsed, Or.inr (by omega), by omega⟩
  · exact ⟨b, Finset.mem_erase.mpr ⟨isRight, inside⟩, stillFree, Or.inl rfl, by rw [sameSize]⟩

end Stale

end Heap
end AuraKernel
