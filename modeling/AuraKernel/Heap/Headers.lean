import AuraKernel.Heap.Heap
import AuraKernel.Heap.Tiling

namespace AuraKernel
namespace Heap

open Machine
open Physical

/-!
# Block headers in memory

The assignments of `heap.c` go to fields of block headers.  Headers of
different blocks do not overlap, so an assignment changes one field of one
block and nothing else; the lemmas say this for a block that is either the one
written to or apart from it.  `free_list_add` and `free_list_remove` are then
the two edits of a linked list.
-/

def tagOf (mem : Mem) (blk : Nat) : Tag :=
  { size := Block.size mem blk, used := Block.used mem blk,
    next := Block.next mem blk, prev := Block.prev mem blk }

/-- The same block, or one whose header does not overlap. -/
def Clear (b c : Nat) : Prop := c = b ∨ c + headerSize ≤ b ∨ b + headerSize ≤ c

/-- Headers of different blocks do not overlap, and all addresses are words. -/
structure Spread (blocks : Finset Nat) : Prop where
  nonzero : ∀ b ∈ blocks, b ≠ 0
  small : ∀ b ∈ blocks, b < 2 ^ 64
  clear : ∀ b ∈ blocks, ∀ c ∈ blocks, Clear b c

/-- The places outside all headers. -/
def OutsideHeaders (blocks : Finset Nat) (place : Nat) : Prop :=
  ∀ b ∈ blocks, place < b ∨ b + headerSize ≤ place

section Words

variable (mem : Mem) (b : Nat)

@[simp] theorem wrap64_next : wrap64 (Block.next mem b) = Block.next mem b :=
  wrap64_of_lt (Mem.load64_lt _ _)

@[simp] theorem wrap64_nextFree : wrap64 (Block.nextFree mem b) = Block.nextFree mem b :=
  wrap64_of_lt (Mem.load64_lt _ _)

@[simp] theorem wrap64_prevFree : wrap64 (Block.prevFree mem b) = Block.prevFree mem b :=
  wrap64_of_lt (Mem.load64_lt _ _)

end Words

section Fields

variable {mem other : Mem} {b c value : Nat}

/-- A header depends on its own bytes only. -/
theorem header_congr
    (agree : ∀ place, c ≤ place → place < c + headerSize → other place = mem place) :
    tagOf other c = tagOf mem c ∧ Block.nextFree other c = Block.nextFree mem c ∧
      Block.prevFree other c = Block.prevFree mem c := by
  unfold headerSize at agree
  have word : ∀ offset, offset + 8 ≤ 48 → other.load64 (c + offset) = mem.load64 (c + offset) :=
    fun offset inside => Mem.load64_congr fun place low high => agree place (by omega) (by omega)
  refine ⟨?_, word 32 (by decide), word 40 (by decide)⟩
  have size : other.load64 c = mem.load64 c := word 0 (by decide)
  unfold tagOf Block.size Block.used Block.next Block.prev
  rw [size, word 16 (by decide), word 24 (by decide), agree (c + 8) (by omega) (by omega)]

/-- A word field of a header after a word is stored into a header. -/
theorem word_of_clear (clear : Clear b c) (mem : Mem) (value : Nat) {offset offset' : Nat}
    (inside : offset + 8 ≤ 48) (inside' : offset' + 8 ≤ 48)
    (apart : offset' = offset ∨ offset + 8 ≤ offset' ∨ offset' + 8 ≤ offset) :
    (mem.store64 (b + offset) value).load64 (c + offset') =
      if c = b ∧ offset' = offset then wrap64 value else mem.load64 (c + offset') := by
  unfold Clear headerSize at clear
  by_cases same : c = b ∧ offset' = offset
  · rw [if_pos same, same.1, same.2, Mem.load64_store64_same]
  · rw [if_neg same, Mem.load64_store64_disjoint (by omega)]

/-- All fields of a header after one word field of a header is assigned. -/
theorem fields_of_clear (clear : Clear b c) (mem : Mem) (value : Nat) {offset : Nat}
    (field : offset ∈ [0, 16, 24, 32, 40]) :
    let after := mem.store64 (b + offset) value
    Block.size after c = (if c = b ∧ 0 = offset then wrap64 value else Block.size mem c) ∧
    Block.used after c = Block.used mem c ∧
    Block.next after c = (if c = b ∧ 16 = offset then wrap64 value else Block.next mem c) ∧
    Block.prev after c = (if c = b ∧ 24 = offset then wrap64 value else Block.prev mem c) ∧
    Block.nextFree after c =
      (if c = b ∧ 32 = offset then wrap64 value else Block.nextFree mem c) ∧
    Block.prevFree after c =
      (if c = b ∧ 40 = offset then wrap64 value else Block.prevFree mem c) := by
  have cases : offset = 0 ∨ offset = 16 ∨ offset = 24 ∨ offset = 32 ∨ offset = 40 := by
    simpa using field
  have word : ∀ offset', offset' ∈ [0, 16, 24, 32, 40] →
      (mem.store64 (b + offset) value).load64 (c + offset') =
        if c = b ∧ offset' = offset then wrap64 value else mem.load64 (c + offset') := by
    intro offset' field'
    have cases' : offset' = 0 ∨ offset' = 16 ∨ offset' = 24 ∨ offset' = 32 ∨ offset' = 40 := by
      simpa using field'
    exact word_of_clear clear mem value (by omega) (by omega) (by omega)
  refine ⟨word 0 (by decide), ?_, word 16 (by decide), word 24 (by decide), word 32 (by decide),
    word 40 (by decide)⟩
  unfold Clear headerSize at clear
  exact Mem.store64_apply_of_outside (by omega)

theorem header_setSize (clear : Clear b c) (mem : Mem) (value : Nat) :
    tagOf (Block.setSize b value mem) c =
        (if c = b then { tagOf mem c with size := wrap64 value } else tagOf mem c) ∧
      Block.nextFree (Block.setSize b value mem) c = Block.nextFree mem c ∧
      Block.prevFree (Block.setSize b value mem) c = Block.prevFree mem c := by
  have fields := fields_of_clear clear mem value (by decide : 0 ∈ [0, 16, 24, 32, 40])
  simp only [and_true, OfNat.ofNat_ne_zero, and_false, if_false, Nat.add_zero] at fields
  rcases fields with ⟨size, used, next, prev, nextFree, prevFree⟩
  refine ⟨?_, nextFree, prevFree⟩
  unfold tagOf Block.setSize
  rw [size, used, next, prev]
  by_cases same : c = b
  · rw [if_pos same, if_pos same]
  · rw [if_neg same, if_neg same]

theorem header_setUsed (clear : Clear b c) (mem : Mem) (value : UInt8) :
    tagOf (Block.setUsed b value mem) c =
        (if c = b then { tagOf mem c with used := value } else tagOf mem c) ∧
      Block.nextFree (Block.setUsed b value mem) c = Block.nextFree mem c ∧
      Block.prevFree (Block.setUsed b value mem) c = Block.prevFree mem c := by
  unfold Clear headerSize at clear
  have word : ∀ offset, offset + 8 ≤ 8 ∨ 8 < offset → offset + 8 ≤ 48 →
      (mem.store8 (b + 8) value).load64 (c + offset) = mem.load64 (c + offset) :=
    fun offset apart inside => Mem.load64_store8_disjoint (by omega)
  have size : (mem.store8 (b + 8) value).load64 c = mem.load64 c :=
    word 0 (by decide) (by decide)
  have used : (mem.store8 (b + 8) value) (c + 8) = if c = b then value else mem (c + 8) := by
    by_cases same : c = b
    · rw [if_pos same, same, Mem.store8_self]
    · rw [if_neg same, Mem.store8_of_ne (by omega)]
  refine ⟨?_, word 32 (by decide) (by decide), word 40 (by decide) (by decide)⟩
  unfold tagOf Block.setUsed Block.size Block.used Block.next Block.prev
  rw [size, used, word 16 (by decide) (by decide), word 24 (by decide) (by decide)]
  by_cases same : c = b
  · rw [if_pos same, if_pos same]
  · rw [if_neg same, if_neg same]

theorem header_setNext (clear : Clear b c) (mem : Mem) (value : Nat) :
    tagOf (Block.setNext b value mem) c =
        (if c = b then { tagOf mem c with next := wrap64 value } else tagOf mem c) ∧
      Block.nextFree (Block.setNext b value mem) c = Block.nextFree mem c ∧
      Block.prevFree (Block.setNext b value mem) c = Block.prevFree mem c := by
  have fields := fields_of_clear clear mem value (by decide : 16 ∈ [0, 16, 24, 32, 40])
  simp only [and_true, Nat.reduceEqDiff, OfNat.zero_ne_ofNat, and_false, if_false] at fields
  rcases fields with ⟨size, used, next, prev, nextFree, prevFree⟩
  refine ⟨?_, nextFree, prevFree⟩
  unfold tagOf Block.setNext
  rw [size, used, next, prev]
  by_cases same : c = b
  · rw [if_pos same, if_pos same]
  · rw [if_neg same, if_neg same]

theorem header_setPrev (clear : Clear b c) (mem : Mem) (value : Nat) :
    tagOf (Block.setPrev b value mem) c =
        (if c = b then { tagOf mem c with prev := wrap64 value } else tagOf mem c) ∧
      Block.nextFree (Block.setPrev b value mem) c = Block.nextFree mem c ∧
      Block.prevFree (Block.setPrev b value mem) c = Block.prevFree mem c := by
  have fields := fields_of_clear clear mem value (by decide : 24 ∈ [0, 16, 24, 32, 40])
  simp only [and_true, Nat.reduceEqDiff, OfNat.zero_ne_ofNat, and_false, if_false] at fields
  rcases fields with ⟨size, used, next, prev, nextFree, prevFree⟩
  refine ⟨?_, nextFree, prevFree⟩
  unfold tagOf Block.setPrev
  rw [size, used, next, prev]
  by_cases same : c = b
  · rw [if_pos same, if_pos same]
  · rw [if_neg same, if_neg same]

theorem header_setNextFree (clear : Clear b c) (mem : Mem) (value : Nat) :
    tagOf (Block.setNextFree b value mem) c = tagOf mem c ∧
      Block.nextFree (Block.setNextFree b value mem) c =
        (if c = b then wrap64 value else Block.nextFree mem c) ∧
      Block.prevFree (Block.setNextFree b value mem) c =
        Block.prevFree mem c := by
  have fields := fields_of_clear clear mem value (by decide : 32 ∈ [0, 16, 24, 32, 40])
  simp only [and_true, Nat.reduceEqDiff, OfNat.zero_ne_ofNat, and_false, if_false] at fields
  rcases fields with ⟨size, used, next, prev, nextFree, prevFree⟩
  refine ⟨?_, nextFree, prevFree⟩
  unfold tagOf Block.setNextFree
  rw [size, used, next, prev]

theorem header_setPrevFree (clear : Clear b c) (mem : Mem) (value : Nat) :
    tagOf (Block.setPrevFree b value mem) c = tagOf mem c ∧
      Block.nextFree (Block.setPrevFree b value mem) c =
        Block.nextFree mem c ∧
      Block.prevFree (Block.setPrevFree b value mem) c =
        (if c = b then wrap64 value else Block.prevFree mem c) := by
  have fields := fields_of_clear clear mem value (by decide : 40 ∈ [0, 16, 24, 32, 40])
  simp only [and_true, Nat.reduceEqDiff, OfNat.zero_ne_ofNat, and_false, if_false] at fields
  rcases fields with ⟨size, used, next, prev, nextFree, prevFree⟩
  refine ⟨?_, nextFree, prevFree⟩
  unfold tagOf Block.setPrevFree
  rw [size, used, next, prev]

theorem header_setPrevOf (clear : b ≠ 0 → Clear b c) (nonzero : c ≠ 0) (mem : Mem) (value : Nat) :
    tagOf (Block.setPrevOf b value mem) c =
        (if c = b then { tagOf mem c with prev := wrap64 value } else tagOf mem c) ∧
      Block.nextFree (Block.setPrevOf b value mem) c = Block.nextFree mem c ∧
      Block.prevFree (Block.setPrevOf b value mem) c = Block.prevFree mem c := by
  unfold Block.setPrevOf
  by_cases null : b = 0
  · rw [if_neg (not_not.mpr null), null, if_neg nonzero]
    exact ⟨rfl, rfl, rfl⟩
  · rw [if_pos null]
    exact header_setPrev (clear null) mem value

theorem header_setPrevFreeOf (clear : b ≠ 0 → Clear b c) (nonzero : c ≠ 0) (mem : Mem)
    (value : Nat) :
    tagOf (Block.setPrevFreeOf b value mem) c = tagOf mem c ∧
      Block.nextFree (Block.setPrevFreeOf b value mem) c = Block.nextFree mem c ∧
      Block.prevFree (Block.setPrevFreeOf b value mem) c =
        (if c = b then wrap64 value else Block.prevFree mem c) := by
  unfold Block.setPrevFreeOf
  by_cases null : b = 0
  · rw [if_neg (not_not.mpr null), null, if_neg nonzero]
    exact ⟨rfl, rfl, rfl⟩
  · rw [if_pos null]
    exact header_setPrevFree (clear null) mem value

end Fields

/-! ## What header assignments leave alone -/

/-- Only headers of `blocks` differ. -/
def WritesHeaders (blocks : Finset Nat) (before after : Mem) : Prop :=
  ∀ place, OutsideHeaders blocks place → after place = before place

namespace WritesHeaders

variable {blocks larger : Finset Nat} {first second third mem : Mem} {b value : Nat}

theorem refl (blocks : Finset Nat) (mem : Mem) : WritesHeaders blocks mem mem := fun _ _ => rfl

theorem trans (one : WritesHeaders blocks first second) (two : WritesHeaders blocks second third) :
    WritesHeaders blocks first third :=
  fun place outside => (two place outside).trans (one place outside)

theorem mono (writes : WritesHeaders blocks first second) (subset : blocks ⊆ larger) :
    WritesHeaders larger first second :=
  fun place outside => writes place fun b inside => outside b (subset inside)

/-- A word stored inside the header of a block. -/
theorem store64 (writes : WritesHeaders blocks first mem) (member : b ∈ blocks) {offset : Nat}
    (inside : offset + 8 ≤ 48) (value : Nat) :
    WritesHeaders blocks first (mem.store64 (b + offset) value) := by
  intro place outside
  have away := outside b member
  unfold headerSize at away
  rw [Mem.store64_apply_of_outside (by omega)]
  exact writes place outside

theorem setUsed (writes : WritesHeaders blocks first mem) (member : b ∈ blocks) (value : UInt8) :
    WritesHeaders blocks first (Block.setUsed b value mem) := by
  intro place outside
  have away := outside b member
  unfold headerSize at away
  unfold Block.setUsed
  rw [Mem.store8_of_ne (by omega)]
  exact writes place outside

theorem setSize (writes : WritesHeaders blocks first mem) (member : b ∈ blocks) (value : Nat) :
    WritesHeaders blocks first (Block.setSize b value mem) :=
  writes.store64 member (by decide : 0 + 8 ≤ 48) value

theorem setNext (writes : WritesHeaders blocks first mem) (member : b ∈ blocks) (value : Nat) :
    WritesHeaders blocks first (Block.setNext b value mem) :=
  writes.store64 member (by decide) value

theorem setPrev (writes : WritesHeaders blocks first mem) (member : b ∈ blocks) (value : Nat) :
    WritesHeaders blocks first (Block.setPrev b value mem) :=
  writes.store64 member (by decide) value

theorem setNextFree (writes : WritesHeaders blocks first mem) (member : b ∈ blocks) (value : Nat) :
    WritesHeaders blocks first (Block.setNextFree b value mem) :=
  writes.store64 member (by decide) value

theorem setPrevFree (writes : WritesHeaders blocks first mem) (member : b ∈ blocks) (value : Nat) :
    WritesHeaders blocks first (Block.setPrevFree b value mem) :=
  writes.store64 member (by decide) value

theorem setPrevOf (writes : WritesHeaders blocks first mem) (member : b ≠ 0 → b ∈ blocks)
    (value : Nat) : WritesHeaders blocks first (Block.setPrevOf b value mem) := by
  unfold Block.setPrevOf
  by_cases null : b = 0
  · rw [if_neg (not_not.mpr null)]
    exact writes
  · rw [if_pos null]
    exact writes.setPrev (member null) value

theorem setPrevFreeOf (writes : WritesHeaders blocks first mem) (member : b ≠ 0 → b ∈ blocks)
    (value : Nat) : WritesHeaders blocks first (Block.setPrevFreeOf b value mem) := by
  unfold Block.setPrevFreeOf
  by_cases null : b = 0
  · rw [if_neg (not_not.mpr null)]
    exact writes
  · rw [if_pos null]
    exact writes.setPrevFree (member null) value

end WritesHeaders

/-! ## The free list -/

/-- The free list of the heap consists of `nodes`, all of them in `blocks`. -/
structure FreeList (s : HeapState) (blocks : Finset Nat) (nodes : List Nat) : Prop where
  linked : Linked (Block.nextFree s.mem) (Block.prevFree s.mem) 0 s.freeHead nodes
  distinct : nodes.Nodup
  subset : ∀ b ∈ nodes, b ∈ blocks

/-- Only the free list changed: it consists of `nodes` now. -/
structure Relinks (before after : HeapState) (blocks : Finset Nat) (nodes : List Nat) : Prop where
  tag_eq : ∀ b ∈ blocks, tagOf after.mem b = tagOf before.mem b
  freeList : FreeList after blocks nodes
  writes : WritesHeaders blocks before.mem after.mem
  pmm_eq : after.phys.pmm = before.phys.pmm
  heapUsed_eq : after.heapUsed = before.heapUsed
  physOffset_eq : after.physOffset = before.physOffset

theorem FreeList.freeHead_lt {s : HeapState} {blocks : Finset Nat} {nodes : List Nat}
    (freeList : FreeList s blocks nodes) (spread : Spread blocks) : s.freeHead < 2 ^ 64 := by
  by_cases empty : s.freeHead = 0
  · rw [empty]
    decide
  · exact spread.small _ (freeList.subset _ (freeList.linked.current_mem empty))

theorem freeListAdd_eq (blk : Nat) (s : HeapState) :
    (freeListAdd blk s).mem =
        Block.setPrevFreeOf s.freeHead blk
          (Block.setPrevFree blk 0 (Block.setNextFree blk s.freeHead s.mem)) ∧
      (freeListAdd blk s).freeHead = blk ∧
      (freeListAdd blk s).phys.pmm = s.phys.pmm ∧
      (freeListAdd blk s).heapUsed = s.heapUsed ∧
      (freeListAdd blk s).physOffset = s.physOffset :=
  ⟨rfl, rfl, rfl, rfl, rfl⟩

/-- `free_list_add` pushes a block at the head. -/
theorem freeListAdd_relinks {s : HeapState} {blocks : Finset Nat} {nodes : List Nat}
    (spread : Spread blocks) (freeList : FreeList s blocks nodes) {blk : Nat}
    (member : blk ∈ blocks)
    (fresh : blk ∉ nodes) : Relinks s (freeListAdd blk s) blocks (blk :: nodes) := by
  have headLt := freeList.freeHead_lt spread
  have blkLt := spread.small blk member
  have headMem : s.freeHead ≠ 0 → s.freeHead ∈ blocks :=
    fun nonempty => freeList.subset _ (freeList.linked.current_mem nonempty)
  have links : ∀ c ∈ blocks, tagOf (freeListAdd blk s).mem c = tagOf s.mem c ∧
      Block.nextFree (freeListAdd blk s).mem c =
        (if c = blk then s.freeHead else Block.nextFree s.mem c) ∧
      Block.prevFree (freeListAdd blk s).mem c =
        (if c = s.freeHead then blk
          else if c = blk then 0 else Block.prevFree s.mem c) := by
    intro c inside
    have toBlk := spread.clear blk member c inside
    have one := header_setNextFree toBlk s.mem s.freeHead
    have two := header_setPrevFree toBlk (Block.setNextFree blk s.freeHead s.mem) 0
    rw [one.1, one.2.1, one.2.2, wrap64_of_lt headLt] at two
    rw [(freeListAdd_eq blk s).1]
    have three := header_setPrevFreeOf (fun nonempty => spread.clear _ (headMem nonempty) c inside)
      (spread.nonzero c inside) (Block.setPrevFree blk 0 (Block.setNextFree blk s.freeHead s.mem))
      blk
    rw [two.1, two.2.1, two.2.2, wrap64_of_lt blkLt] at three
    exact three
  have elsewhere : ∀ c ∈ nodes, c ≠ blk := by
    rintro c inside rfl
    exact fresh inside
  rcases freeListAdd_eq blk s with ⟨memEq, headEq, pmmEq, usedEq, offsetEq⟩
  refine ⟨fun c inside => (links c inside).1, ⟨?_, ?_, ?_⟩, ?_, pmmEq, usedEq, offsetEq⟩
  · rw [headEq]
    refine freeList.linked.push freeList.distinct (spread.nonzero blk member) ?_ ?_ ?_ ?_
    · rw [(links blk member).2.1, if_pos rfl]
    · rw [(links blk member).2.2, if_neg, if_pos rfl]
      intro isHead
      exact fresh (isHead ▸ freeList.linked.current_mem (isHead ▸ spread.nonzero blk member))
    · intro c inside
      rw [(links c (freeList.subset c inside)).2.1, if_neg (elsewhere c inside)]
    · intro c inside
      rw [(links c (freeList.subset c inside)).2.2]
      rw [if_neg (elsewhere c inside)]
  · exact List.nodup_cons.mpr ⟨fresh, freeList.distinct⟩
  · intro c inside
    rcases List.mem_cons.mp inside with rfl | old
    · exact member
    · exact freeList.subset c old
  · rw [memEq]
    exact (((WritesHeaders.refl blocks s.mem).setNextFree member s.freeHead).setPrevFree
      member 0).setPrevFreeOf headMem blk

/-- The first assignment of `free_list_remove`, to the predecessor. -/
def unlinkBefore (blk : Nat) (mem : Mem) : Mem :=
  if Block.prevFree mem blk ≠ 0 then
    Block.setNextFree (Block.prevFree mem blk) (Block.nextFree mem blk) mem
  else mem

theorem freeListRemove_eq (blk : Nat) (s : HeapState) :
    (freeListRemove blk s).mem =
        Block.setPrevFree blk 0 (Block.setNextFree blk 0
          (Block.setPrevFreeOf (Block.nextFree (unlinkBefore blk s.mem) blk)
            (Block.prevFree (unlinkBefore blk s.mem) blk) (unlinkBefore blk s.mem))) ∧
      (freeListRemove blk s).freeHead =
        (if Block.prevFree s.mem blk ≠ 0 then s.freeHead else Block.nextFree s.mem blk) ∧
      (freeListRemove blk s).phys.pmm = s.phys.pmm ∧
      (freeListRemove blk s).heapUsed = s.heapUsed ∧
      (freeListRemove blk s).physOffset = s.physOffset := by
  unfold freeListRemove unlinkBefore
  by_cases first : Block.prevFree s.mem blk = 0
  · simp only [if_neg (not_not.mpr first), HeapState.write_freeHead, HeapState.write_pmm,
      HeapState.write_heapUsed, HeapState.write_physOffset, HeapState.write_mem,
      HeapState.setFreeHead_mem, and_self]
  · simp only [if_pos first, HeapState.write_freeHead, HeapState.write_pmm,
      HeapState.write_heapUsed, HeapState.write_physOffset, HeapState.write_mem, and_self]

section Remove

variable {s : HeapState} {blocks : Finset Nat} {nodes : List Nat} {blk : Nat}

theorem FreeList.prevFree_mem (freeList : FreeList s blocks nodes) (member : blk ∈ nodes)
    (nonzero : Block.prevFree s.mem blk ≠ 0) : Block.prevFree s.mem blk ∈ blocks := by
  rcases freeList.linked.prev_cases member with ⟨_, back⟩ | ⟨prevIn, _⟩
  · exact absurd back nonzero
  · exact freeList.subset _ prevIn

theorem FreeList.nextFree_mem (freeList : FreeList s blocks nodes) (member : blk ∈ nodes)
    (nonzero : Block.nextFree s.mem blk ≠ 0) : Block.nextFree s.mem blk ∈ blocks := by
  rcases freeList.linked.next_cases member with ended | ⟨nextIn, _⟩
  · exact absurd ended nonzero
  · exact freeList.subset _ nextIn

theorem FreeList.zero_not_mem (freeList : FreeList s blocks nodes) : 0 ∉ nodes :=
  fun zero => freeList.linked.ne_zero zero rfl

/-- The headers after the first assignment. -/
theorem header_unlinkBefore (spread : Spread blocks) (freeList : FreeList s blocks nodes)
    (member : blk ∈ nodes) {c : Nat} (inside : c ∈ blocks) :
    tagOf (unlinkBefore blk s.mem) c = tagOf s.mem c ∧
      Block.nextFree (unlinkBefore blk s.mem) c =
        (if c = Block.prevFree s.mem blk then Block.nextFree s.mem blk
          else Block.nextFree s.mem c) ∧
      Block.prevFree (unlinkBefore blk s.mem) c = Block.prevFree s.mem c := by
  unfold unlinkBefore
  by_cases nonzero : Block.prevFree s.mem blk = 0
  · rw [if_neg (not_not.mpr nonzero), nonzero, if_neg (spread.nonzero c inside)]
    exact ⟨rfl, rfl, rfl⟩
  · have written := header_setNextFree
      (spread.clear _ (freeList.prevFree_mem member nonzero) c inside) s.mem
      (Block.nextFree s.mem blk)
    rw [wrap64_nextFree] at written
    rw [if_pos nonzero]
    exact written

/-- The second assignment reads the links of `blk` unchanged. -/
theorem links_unlinkBefore (spread : Spread blocks) (freeList : FreeList s blocks nodes)
    (member : blk ∈ nodes) :
    Block.nextFree (unlinkBefore blk s.mem) blk = Block.nextFree s.mem blk ∧
      Block.prevFree (unlinkBefore blk s.mem) blk = Block.prevFree s.mem blk := by
  have prevNe := freeList.linked.prev_ne freeList.zero_not_mem freeList.distinct member
  have header := header_unlinkBefore spread freeList member (freeList.subset blk member)
  refine ⟨?_, header.2.2⟩
  rw [header.2.1, if_neg (Ne.symm prevNe)]

/-- The headers after all of `free_list_remove`. -/
theorem header_freeListRemove (spread : Spread blocks) (freeList : FreeList s blocks nodes)
    (member : blk ∈ nodes) {c : Nat} (inside : c ∈ blocks) :
    tagOf (freeListRemove blk s).mem c = tagOf s.mem c ∧
      Block.nextFree (freeListRemove blk s).mem c =
        (if c = blk then 0
          else if c = Block.prevFree s.mem blk then Block.nextFree s.mem blk
          else Block.nextFree s.mem c) ∧
      Block.prevFree (freeListRemove blk s).mem c =
        (if c = blk then 0
          else if c = Block.nextFree s.mem blk then Block.prevFree s.mem blk
          else Block.prevFree s.mem c) := by
  have toBlk := spread.clear blk (freeList.subset blk member) c inside
  have first := header_unlinkBefore spread freeList member inside
  have second := header_setPrevFreeOf
    (fun nonzero => spread.clear _ (freeList.nextFree_mem member nonzero) c inside)
    (spread.nonzero c inside) (unlinkBefore blk s.mem) (Block.prevFree s.mem blk)
  have third := header_setNextFree toBlk (Block.setPrevFreeOf (Block.nextFree s.mem blk)
    (Block.prevFree s.mem blk) (unlinkBefore blk s.mem)) 0
  have fourth := header_setPrevFree toBlk (Block.setNextFree blk 0 (Block.setPrevFreeOf
    (Block.nextFree s.mem blk) (Block.prevFree s.mem blk) (unlinkBefore blk s.mem))) 0
  rw [third.1, third.2.1, third.2.2, second.1, second.2.1, second.2.2, first.1, first.2.1,
    first.2.2, wrap64_prevFree, wrap64_of_lt (by decide)] at fourth
  rw [(freeListRemove_eq blk s).1, (links_unlinkBefore spread freeList member).1,
    (links_unlinkBefore spread freeList member).2]
  exact fourth

theorem freeListRemove_writes (spread : Spread blocks) (freeList : FreeList s blocks nodes)
    (member : blk ∈ nodes) : WritesHeaders blocks s.mem (freeListRemove blk s).mem := by
  have blkMem := freeList.subset blk member
  have first : WritesHeaders blocks s.mem (unlinkBefore blk s.mem) := by
    unfold unlinkBefore
    by_cases nonzero : Block.prevFree s.mem blk = 0
    · rw [if_neg (not_not.mpr nonzero)]
      exact WritesHeaders.refl _ _
    · rw [if_pos nonzero]
      exact (WritesHeaders.refl _ _).setNextFree (freeList.prevFree_mem member nonzero) _
  rw [(freeListRemove_eq blk s).1, (links_unlinkBefore spread freeList member).1,
    (links_unlinkBefore spread freeList member).2]
  exact ((first.setPrevFreeOf (freeList.nextFree_mem member) _).setNextFree blkMem 0).setPrevFree
    blkMem 0

/-- `free_list_remove` unlinks a block of the list. -/
theorem freeListRemove_relinks (spread : Spread blocks) (freeList : FreeList s blocks nodes)
    (member : blk ∈ nodes) : Relinks s (freeListRemove blk s) blocks (nodes.erase blk) := by
  rcases freeListRemove_eq blk s with ⟨_, headEq, pmmEq, usedEq, offsetEq⟩
  refine ⟨fun c inside => (header_freeListRemove spread freeList member inside).1, ⟨?_, ?_, ?_⟩,
    freeListRemove_writes spread freeList member, pmmEq, usedEq, offsetEq⟩
  · have points := freeList.linked.prev_eq_before_iff freeList.zero_not_mem freeList.distinct member
    have head : (freeListRemove blk s).freeHead =
        if s.freeHead = blk then Block.nextFree s.mem blk else s.freeHead := by
      rw [headEq]
      by_cases isHead : s.freeHead = blk
      · rw [if_pos isHead, if_neg (not_not.mpr (points.mpr isHead))]
      · rw [if_neg isHead, if_pos (fun zero => isHead (points.mp zero))]
    rw [head]
    refine freeList.linked.unlink freeList.zero_not_mem freeList.distinct member ?_ ?_
    · intro c inside different
      rw [(header_freeListRemove spread freeList member (freeList.subset c inside)).2.1,
        if_neg different]
    · intro c inside different
      rw [(header_freeListRemove spread freeList member (freeList.subset c inside)).2.2,
        if_neg different]
  · exact freeList.distinct.erase blk
  · exact fun c inside => freeList.subset c (List.mem_of_mem_erase inside)

end Remove

end Heap
end AuraKernel
