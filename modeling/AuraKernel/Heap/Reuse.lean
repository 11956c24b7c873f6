import AuraKernel.Heap.Requests

namespace AuraKernel
namespace Heap

open Machine
open Physical

/-!
# A freed block is used again

The block that `kmalloc` returns has no free block on its left: it was free
itself, and no two free blocks are neighbours.  So `kfree` does not merge it
into another block, and it ends up at the head of the free list, at least as
large as it was.  There the next request of at most this size finds it.
-/

section Reuse

variable {s : HeapState} {reserved : Set Nat} {layout : Layout} {session : Session}

/-- The first block of the free list is large enough, and the search ends there. -/
theorem HeapInv.kmalloc_head (inv : HeapInv s reserved layout) {size blk : Nat}
    (positive : size ≠ 0) (head : s.freeHead = blk) (nonzero : blk ≠ 0)
    (fits : alignUp size 8 ≤ Block.size s.mem blk) :
    kmalloc size s = some (blk + headerSize, takeBlock blk (alignUp size 8) s) ∧
      growCalls (s.phys.pmm.totalFrames + 1) size s = some 0 := by
  have search : searchLoop s.mem (alignUp size 8) wordSize s.freeHead = some blk := by
    rw [head, show wordSize = (wordSize - 1) + 1 from rfl, searchLoop, if_neg nonzero, if_pos fits]
  have member : blk ∈ layout.nodes := head ▸ inv.freeList.linked.current_mem (head ▸ nonzero)
  exact ⟨(inv.kmalloc_found positive member search).2, growCalls_found positive search nonzero⟩

/-- A new block, and that it has no free block on its left. -/
theorem SessionInv.kmalloc_guarded (inv : SessionInv session reserved layout) {size ptr : Nat}
    {heap : HeapState} (returned : Heap.kmalloc size session.heap = some (ptr, heap))
    (nonzero : ptr ≠ 0) :
    ∃ b after, ptr = b + headerSize ∧
      SessionInv (session.after (.kmalloc size) ptr heap) reserved after ∧
      Guarded (tagOf heap.mem) b ∧ alignUp size 8 ≤ Block.size heap.mem b := by
  rcases inv.heap.kmalloc_spec size with ⟨ptr', heap', after, returned', allocates⟩
  cases returned'.symm.trans returned
  rcases allocates.result with ⟨null, _⟩ | ⟨b, place, _, _, fits, alone⟩
  · exact absurd null nonzero
  · have inv' := @SessionInv.performs reserved layout after session (.kmalloc size) ptr heap inv
      allocates.performs
    exact ⟨b, after, place, inv'.1, alone inv.merged, fits⟩

/-- A block without a free block on its left is the head of the free list after `kfree`, and
has not shrunk. -/
theorem SessionInv.kfree_head (inv : SessionInv session reserved layout) {b : Nat}
    (held : b + headerSize ∈ session.held) (alone : Guarded (tagOf session.heap.mem) b) :
    ∃ after, SessionInv (session.after (.kfree (b + headerSize)) 0
        (kfree (b + headerSize) session.heap)) reserved after ∧
      (kfree (b + headerSize) session.heap).freeHead = b ∧ b ∈ after.blocks ∧
      Block.size session.heap.mem b ≤
        Block.size (kfree (b + headerSize) session.heap).mem b := by
  rw [inv.held] at held
  rcases Layout.mem_pointers.mp held with ⟨c, live, same⟩
  have : c = b := (Nat.add_right_cancel same).symm
  subst this
  rcases inv.heap.kfree_spec live with ⟨after, frees⟩
  have inv' := @SessionInv.performs reserved layout after session (.kfree (c + headerSize)) 0 _ inv
    frees.performs
  rcases frees.head alone with ⟨head, sizeLe⟩
  have nonzero := inv.heap.tiling.nonzero c (mem_usedBlocks.mp live).1
  have linked := frees.inv.freeList.linked
  rw [head] at linked
  have node := linked.current_mem nonzero
  exact ⟨after, inv'.1, head, frees.inv.freeList.subset c node, sizeLe⟩

/-- In every session that a new heap can reach, a pointer that `kmalloc` returns is returned
again after it was given back, to any request whose rounded size is not larger, and without a
call of `grow_heap`.  In between callers may write to what they hold. -/
theorem reachable_reused {phys : PhysState} {offset : Nat}
    (space : FrameSpace phys offset reserved)
    (reachable : Session.Reachable reserved offset phys session) {n m ptr : Nat}
    {heap : HeapState} (returned : Heap.kmalloc n session.heap = some (ptr, heap))
    (nonzero : ptr ≠ 0) {busy idle : Session}
    (working : Relation.ReflTransGen (Session.Quiet reserved)
      (session.after (.kmalloc n) ptr heap) busy)
    (waiting : Relation.ReflTransGen (Session.Quiet reserved)
      (busy.after (.kfree ptr) 0 (kfree ptr busy.heap)) idle)
    (positive : 0 < m) (le : alignUp m 8 ≤ alignUp n 8) :
    ∃ heap', Heap.kmalloc m idle.heap = some (ptr, heap') ∧
      growCalls (idle.heap.phys.pmm.totalFrames + 1) m idle.heap = some 0 := by
  rcases reachable_inv space reachable with ⟨layout, inv⟩
  have held := @Session.mem_after_kmalloc session heap n ptr nonzero
  rcases inv.kmalloc_guarded returned nonzero with ⟨b, layout1, rfl, inv1, alone, fits⟩
  rcases inv1.quiet_run working with ⟨inv2, keeps⟩
  rw [← keeps.held_eq] at held
  have bMem : b ∈ layout1.blocks := by
    rw [inv2.held] at held
    rcases Layout.mem_pointers.mp held with ⟨c, live, same⟩
    exact (Nat.add_right_cancel same) ▸ (mem_usedBlocks.mp live).1
  have alone2 : Guarded (tagOf busy.heap.mem) b :=
    alone.congr inv2.heap.tiling bMem keeps.tag_eq
  have size2 : Block.size busy.heap.mem b = Block.size heap.mem b :=
    congrArg Tag.size (keeps.tag_eq b bMem)
  rcases inv2.kfree_head held alone2 with ⟨layout3, inv3, head, bMem3, size3⟩
  rcases inv3.quiet_run waiting with ⟨inv4, keeps4⟩
  have size4 : Block.size idle.heap.mem b =
      Block.size (kfree (b + headerSize) busy.heap).mem b :=
    congrArg Tag.size (keeps4.tag_eq b bMem3)
  have served := inv4.heap.kmalloc_head (Nat.ne_of_gt positive) (keeps4.freeHead_eq.trans head)
    (inv3.heap.tiling.nonzero b bMem3) (by omega)
  exact ⟨_, served.1, served.2⟩

end Reuse

/-- On the small machine a block of 100 bytes is given back and used for 60 bytes. -/
theorem reachable_reused_small :
    ∃ first second, Heap.kmalloc 100 (heapInit 0 smallMachine) = some (8240, first) ∧
      Heap.kmalloc 60 (kfree 8240 first) = some (8240, second) := by
  rcases smallMachine_kmalloc with ⟨first, returned, _, _⟩
  have rounds : alignUp 60 8 ≤ alignUp 100 8 := by decide
  rcases reachable_reused smallMachine_space Relation.ReflTransGen.refl returned (by decide)
    Relation.ReflTransGen.refl Relation.ReflTransGen.refl (by decide) rounds with ⟨second, again, _⟩
  exact ⟨first, second, returned, again⟩

end Heap
end AuraKernel
