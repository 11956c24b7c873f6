import AuraKernel.Heap.Room

namespace AuraKernel
namespace Heap

open Machine
open Physical

/-!
# Freeing an aligned block

`kmalloc_aligned` returns a pointer into the middle of a block and stores the
pointer that `kmalloc` returned in front of it.  `kfree` never looks at the
stored pointer.  It takes the 48 bytes in front of its argument for a header,
and these are bytes of the real header, bytes that nobody has initialised, and
the stored pointer itself.
-/

/-- What the interface promises about `kmalloc_aligned`: the pointer is aligned, there
is room behind it, and after its owner has written there `kfree` takes the block back. -/
def AlignedFreeable (session : Session) (size align : Nat) : Prop :=
  ∀ ptr heap, Heap.kmallocAligned size align session.heap = some (ptr, heap) → ptr ≠ 0 →
    align ∣ ptr ∧ Roomy (session.afterAligned size align ptr heap) ptr size ∧
      ∀ assign : Mem → Mem,
        (∀ place, (place < ptr ∨ ptr + size ≤ place) → assign heap.mem place = heap.mem place) →
        heapGetUsed (kfree ptr (heap.write assign)) = heapGetUsed session.heap ∧
          ∃ layout, WellFormed
            { session.afterAligned size align ptr heap with
              heap := kfree ptr (heap.write assign)
              held := session.held } layout

/-- The bytes of the new block that lie in front of the aligned pointer happen to look like
a header in use with the size of the block. -/
def Forged (session : Session) (size align : Nat) : Prop :=
  ∃ raw heap, Heap.kmalloc (paddedSize size align) session.heap = some (raw, heap) ∧
    raw + headerSize ≤ alignUp (raw + 8) align ∧
      Block.size heap.mem (alignUp (raw + 8) align - headerSize) = payloadSize heap.mem raw ∧
      Block.used heap.mem (alignUp (raw + 8) align - headerSize) ≠ 0

/-! ## What kfree counts out -/

theorem absorb_heapUsed (left right : Nat) (s : HeapState) :
    (absorb left right s).heapUsed = s.heapUsed :=
  (freeListRemove_eq right s).2.2.2.1

theorem coalesceRight_heapUsed (blk : Nat) (s : HeapState) :
    (coalesceRight blk s).heapUsed = s.heapUsed := by
  unfold coalesceRight
  split
  · exact absorb_heapUsed _ _ s
  · rfl

theorem coalesceLeft_heapUsed (blk : Nat) (s : HeapState) :
    (coalesceLeft blk s).heapUsed = s.heapUsed := by
  unfold coalesceLeft
  split
  · exact absorb_heapUsed _ _ s
  · rfl

/-- `kfree` counts out the size it finds 48 bytes in front of the pointer, or nothing. -/
theorem kfree_heapUsed {ptr : Nat} (nonzero : ptr ≠ 0) (s : HeapState) :
    (kfree ptr s).heapUsed =
      if Block.used s.mem (sub64 ptr headerSize) = 0 then s.heapUsed
      else sub64 s.heapUsed (Block.size s.mem (sub64 ptr headerSize)) := by
  rw [kfree_eq, if_neg nonzero]
  by_cases unused : Block.used s.mem (sub64 ptr headerSize) = 0
  · rw [if_pos unused, if_pos unused]
  · rw [if_neg unused, if_neg unused, coalesceLeft_heapUsed, coalesceRight_heapUsed]
    have same : Block.size (Block.setUsed (sub64 ptr headerSize) 0 s.mem) (sub64 ptr headerSize) =
        Block.size s.mem (sub64 ptr headerSize) :=
      Mem.load64_store8_disjoint (Or.inl (by omega))
    exact congrArg (sub64 s.heapUsed) same

/-! ## The header of a new block -/

/-- What a block is when it is handed out, seen byte by byte. -/
structure FreshHeader (mem : Mem) (b : Nat) : Prop where
  used : Block.used mem b = 1
  nextFree : Block.nextFree mem b = 0
  prevFree : Block.prevFree mem b = 0

theorem acquireBlock_fresh (cur : Nat) (s : HeapState) :
    FreshHeader (acquireBlock cur s).mem cur := by
  rw [(acquireBlock_eq cur s).1, (freeListRemove_eq cur s).1]
  generalize Block.setPrevFreeOf _ _ _ = mem
  constructor
  case used => exact Mem.store8_self _ _ _
  case nextFree =>
    unfold Block.nextFree Block.setUsed Block.setPrevFree Block.setNextFree
    rw [Mem.load64_store8_disjoint (Or.inr (by omega)),
      Mem.load64_store64_disjoint (Or.inl (by omega)), Mem.load64_store64_same]
    rfl
  case prevFree =>
    unfold Block.prevFree Block.setUsed Block.setPrevFree
    rw [Mem.load64_store8_disjoint (Or.inr (by omega)), Mem.load64_store64_same]
    rfl

section Calls

variable {s s' : HeapState} {reserved : Set Nat} {layout : Layout} {size : Nat}

theorem HeapInv.kmallocLoop_fresh (inv : HeapInv s reserved layout) {fuel b : Nat}
    (returned : kmallocLoop fuel size s = some (b + headerSize, s')) :
    FreshHeader s'.mem b := by
  induction fuel generalizing s layout size with
  | zero => simp [kmallocLoop] at returned
  | succ fuel inductionHypothesis =>
      have notNull : (0 : Nat) ≠ b + headerSize := by
        unfold headerSize
        omega
      by_cases null : size = 0
      · rw [null, kmallocLoop_zero] at returned
        exact absurd (congrArg Prod.fst (Option.some.inj returned)) notNull
      cases inv.round (alignUp size 8) with
      | found cur member search _ =>
          rw [(inv.kmallocLoop_member fuel null member search).2] at returned
          rcases Prod.mk.inj (Option.some.inj returned) with ⟨same, after⟩
          rw [← after, ← Nat.add_right_cancel same]
          exact acquireBlock_fresh cur _
      | refused _ search failed _ =>
          rw [kmallocLoop_refused null search failed] at returned
          exact absurd (congrArg Prod.fst (Option.some.inj returned)) notNull
      | grown _ search middle between grows =>
          rw [kmallocLoop_grown null search grows.grown] at returned
          exact inductionHypothesis grows.inv returned

theorem load64_mod (mem : Mem) (addr : Nat) : mem.load64 addr % 256 = (mem addr).toNat := by
  have bound := (mem addr).toNat_lt
  rw [Mem.load64, Mem.load]
  omega

/-- None of the words of a fresh header passes for a header itself. -/
theorem FreshHeader.not_header {mem : Mem} {b distance : Nat} (fresh : FreshHeader mem b)
    (grain : 8 ∣ Block.size mem b) (positive : 0 < Block.size mem b)
    (next : Block.next mem b = 0 ∨ Block.size mem b < Block.next mem b)
    (multiple : 8 ∣ distance) (low : 8 ≤ distance) (high : distance < headerSize)
    (size : Block.size mem (b + distance) = Block.size mem b)
    (used : Block.used mem (b + distance) ≠ 0) : False := by
  unfold headerSize at high
  have cases : distance = 8 ∨ distance = 16 ∨ distance = 24 ∨ distance = 32 ∨ distance = 40 := by
    omega
  rcases cases with rfl | rfl | rfl | rfl | rfl
  · -- the size would begin with the byte 1
    have byte := load64_mod mem (b + 8)
    have one : mem (b + 8) = 1 := fresh.used
    rw [one] at byte
    change Block.size mem (b + 8) % 256 = 1 at byte
    omega
  · change Block.next mem b = _ at size
    omega
  · -- the byte for "used" is the first of a null pointer
    have byte := load64_mod mem (b + 32)
    have null : mem.load64 (b + 32) = 0 := fresh.nextFree
    rw [null] at byte
    exact used (UInt8.toNat_inj.mp byte.symm)
  · have null : Block.size mem (b + 32) = 0 := fresh.nextFree
    omega
  · have null : Block.size mem (b + 40) = 0 := fresh.prevFree
    omega

end Calls

section Aligned

variable {session : Session} {reserved : Set Nat} {layout : Layout} {size ptr : Nat}

/-- `kmalloc` counts in the payload it hands out. -/
theorem SessionInv.kmalloc_used (inv : SessionInv session reserved layout) {heap : HeapState}
    (returned : Heap.kmalloc size session.heap = some (ptr, heap)) (nonzero : ptr ≠ 0) :
    heap.heapUsed = session.heap.heapUsed + payloadSize heap.mem ptr := by
  rcases inv.kmalloc_held returned nonzero with ⟨after, inv', heldAfter, fresh, _⟩
  rcases inv.kmalloc_returned returned with ⟨_, _, keeps, _⟩
  have before := inv.wellFormed.used_eq
  have counted := inv'.wellFormed.used_eq
  rw [heldAfter, Finset.sum_insert fresh] at counted
  have same : ∑ q ∈ session.held, payloadSize heap.mem q =
      ∑ q ∈ session.held, payloadSize session.heap.mem q := by
    refine Finset.sum_congr rfl fun q member => ?_
    refine (keeps q member ?_).1
    rw [heldAfter]
    exact Finset.mem_insert_of_mem member
  change heap.heapUsed = payloadSize heap.mem ptr + ∑ q ∈ session.held, payloadSize heap.mem q
    at counted
  change session.heap.heapUsed = _ at before
  rw [counted, same, ← before, Nat.add_comm]

namespace AlignedBlock

variable {k raw : Nat} {heap : HeapState} {after : Layout}

/-- `kfree` restores the count only if it finds a header with the right size. -/
theorem header_of_used (block : AlignedBlock session reserved size k raw ptr heap after)
    (inv : SessionInv session reserved layout) (far : headerSize ≤ ptr)
    (restored : heapGetUsed (kfree ptr (heap.write (stash ptr raw))) =
      heapGetUsed session.heap) (positive : 0 < payloadSize heap.mem raw) :
    Block.size (stash ptr raw heap.mem) (ptr - headerSize) = payloadSize heap.mem raw ∧
      Block.used (stash ptr raw heap.mem) (ptr - headerSize) ≠ 0 := by
  have low := block.low
  have counted := inv.kmalloc_used block.allocated block.raw_ne
  have sizeLt : Block.size (stash ptr raw heap.mem) (ptr - headerSize) < 2 ^ 64 :=
    Mem.load64_lt _ _
  unfold heapGetUsed at restored
  rw [kfree_heapUsed (by omega), sub64_of_le far, HeapState.write_mem,
    HeapState.write_heapUsed] at restored
  by_cases unused : Block.used (stash ptr raw heap.mem) (ptr - headerSize) = 0
  · rw [if_pos unused] at restored
    omega
  · rw [if_neg unused] at restored
    refine ⟨?_, unused⟩
    unfold sub64 at restored
    split at restored
    all_goals omega

/-- The header of the block that was handed out, after the pointer is stored. -/
theorem fresh_header (block : AlignedBlock session reserved size k raw ptr heap after)
    (inv : SessionInv session reserved layout) :
    ∃ b ∈ after.blocks, raw = b + headerSize ∧ FreshHeader (stash ptr raw heap.mem) b ∧
      tagOf (stash ptr raw heap.mem) b = tagOf heap.mem b := by
  have held := block.raw_held
  rw [block.inv.held, Layout.mem_pointers] at held
  rcases held with ⟨b, live, rfl⟩
  have fresh := inv.heap.kmallocLoop_fresh block.allocated
  have low := block.low
  have header : ∀ place, b ≤ place → place < b + headerSize →
      stash ptr (b + headerSize) heap.mem place = heap.mem place :=
    fun place _ inside => block.stash_inside place (Or.inl inside)
  have same := header_congr header
  refine ⟨b, (mem_usedBlocks.mp live).1, rfl, ⟨?_, ?_, ?_⟩, same.1⟩
  · exact (congrArg Tag.used same.1).trans fresh.used
  · exact same.2.1.trans fresh.nextFree
  · exact same.2.2.trans fresh.prevFree

/-- With aligned regions the pointer lies a multiple of 8 behind the block. -/
theorem distance_dvd (block : AlignedBlock session reserved size k raw ptr heap after)
    (raw_dvd : 8 ∣ raw) : 8 ∣ ptr - raw := by
  have low := block.low
  have near := block.near
  have aligned := block.aligned
  rcases Nat.lt_or_ge k 3 with small | large
  · -- the first place behind the stored pointer is aligned already
    have cases : k = 0 ∨ k = 1 ∨ k = 2 := by omega
    rcases cases with rfl | rfl | rfl
    all_goals omega
  · have eight : 2 ^ 3 ∣ ptr := (Nat.pow_dvd_pow 2 large).trans aligned
    omega

theorem raw_dvd (block : AlignedBlock session reserved size k raw ptr heap after)
    (inv : SessionInv session reserved layout) (offset : 8 ∣ session.heap.physOffset) :
    8 ∣ raw := by
  rcases inv.kmalloc_held block.allocated block.raw_ne with ⟨_, _, _, _, _, _, offsetEq, _⟩
  rcases block.fresh_header inv with ⟨b, member, rfl, _⟩
  have starts : ∀ r ∈ after.regions, 8 ∣ r.start := by
    intro r rMem
    rcases block.inv.heap.runs r rMem with ⟨first, count, rfl, _⟩
    change heap.physOffset = _ at offsetEq
    have frames : 8 ∣ first * pageSize := Dvd.dvd.mul_left (by decide) first
    exact Nat.dvd_add (offsetEq ▸ offset) frames
  have start := block.inv.heap.tiling.aligned (by decide) (by decide) starts b member
  exact Nat.dvd_add start (by decide)

/-- Nothing less than forged bytes makes `kfree` take the block back. -/
theorem forged_of_freeable (block : AlignedBlock session reserved size k raw ptr heap after)
    (inv : SessionInv session reserved layout) (offset : 8 ∣ session.heap.physOffset)
    (positive : 0 < payloadSize heap.mem raw)
    (restored : heapGetUsed (kfree ptr (heap.write (stash ptr raw))) =
      heapGetUsed session.heap) : 6 ≤ k ∧ Forged session size (2 ^ k) := by
  have distance := block.distance_dvd (block.raw_dvd inv offset)
  have low := block.low
  have near := block.near
  rcases block.fresh_header inv with ⟨b, member, place, fresh, sameTag⟩
  have sameSize : Block.size (stash ptr raw heap.mem) b = payloadSize heap.mem raw := by
    rw [place, payloadSize_add, ← place]
    exact congrArg Tag.size sameTag
  rcases block.header_of_used inv (by omega) restored positive with ⟨size', used'⟩
  have far : raw + headerSize ≤ ptr := by
    by_contra close
    have shape : ptr - headerSize = b + (ptr - raw) := by omega
    rw [shape] at size' used'
    refine fresh.not_header ?_ (sameSize ▸ positive) ?_ distance (by omega) (by omega)
      (size'.trans sameSize.symm) used'
    · have sizeEq : Block.size (stash ptr raw heap.mem) b = (tagOf heap.mem b).size :=
        congrArg Tag.size sameTag
      rw [sizeEq]
      exact block.inv.heap.tiling.grain_dvd b member
    · rcases block.inv.heap.tiling.next_cases b member with last | ⟨_, next, _⟩
      · exact Or.inl ((congrArg Tag.next sameTag).trans last)
      · refine Or.inr ?_
        have next' : Block.next (stash ptr raw heap.mem) b = b + headerSize +
            Block.size (stash ptr raw heap.mem) b := by
          refine (congrArg Tag.next sameTag).trans (next.trans ?_)
          exact congrArg (b + headerSize + ·) (congrArg Tag.size sameTag).symm
        have headerPos : 0 < headerSize := by decide
        omega
  constructor
  · -- smaller alignments do not move the pointer behind the header
    by_contra less
    have power : 2 ^ k ≤ 2 ^ 5 := Nat.pow_le_pow_right (by decide) (by omega)
    unfold headerSize at far
    omega
  · have inFront : ∀ place, place < ptr - 8 → stash ptr raw heap.mem place = heap.mem place :=
      fun place less => Mem.store64_apply_of_outside (Or.inl less)
    refine ⟨raw, heap, block.allocated, block.address ▸ far, ?_, ?_⟩
    · rw [← block.address, ← size']
      exact (Mem.load64_congr fun place _ high => inFront place (by
        unfold headerSize at *
        omega)).symm
    · rw [← block.address]
      have same : Block.used (stash ptr raw heap.mem) (ptr - headerSize) =
          Block.used heap.mem (ptr - headerSize) := inFront _ (by
        unfold headerSize at *
        omega)
      exact same ▸ used'

end AlignedBlock

/-- Where `kmalloc_aligned` returns NULL, nothing is promised. -/
theorem SessionInv.alignedFreeable_of_refused (inv : SessionInv session reserved layout) {k : Nat}
    (refused : Refused session.heap layout (paddedSize size (2 ^ k))) :
    AlignedFreeable session size (2 ^ k) := by
  intro ptr heap returned nonzero
  by_cases empty : size = 0
  · rw [empty, kmallocAligned_zero] at returned
    exact absurd (congrArg Prod.fst (Option.some.inj returned)).symm nonzero
  · rcases (inv.heap.kmalloc_null_iff (paddedSize_lt _ _)).mpr refused with ⟨t, failed⟩
    have eq := kmallocAligned_eq empty failed
    rw [if_pos rfl, returned] at eq
    exact absurd (congrArg Prod.fst (Option.some.inj eq)) nonzero

/-- In every other case it takes forged bytes. -/
theorem SessionInv.forged_of_alignedFreeable (inv : SessionInv session reserved layout) {k : Nat}
    (positive : size ≠ 0) (power : k < 64)
    (low : session.heap.physOffset + session.heap.phys.pmm.totalFrames * pageSize ≤ 2 ^ 47)
    (offset : 8 ∣ session.heap.physOffset)
    (served : ¬ Refused session.heap layout (paddedSize size (2 ^ k)))
    (freeable : AlignedFreeable session size (2 ^ k)) :
    6 ≤ k ∧ Forged session size (2 ^ k) := by
  have roomy : AlignedRoomy session size (2 ^ k) :=
    fun ptr heap returned nonzero => (freeable ptr heap returned nonzero).2.1 nonzero
  have fits := ((inv.alignedFits_of_roomy power low roomy).resolve_left positive).resolve_right
    served
  rcases inv.kmalloc (paddedSize size (2 ^ k)) with ⟨raw, heap, _, allocated, _⟩
  have nonzero : raw ≠ 0 := by
    rintro rfl
    exact served ((inv.heap.kmalloc_null_iff (paddedSize_lt _ _)).mp ⟨heap, allocated⟩)
  rcases inv.alignedBlock positive power fits nonzero allocated with ⟨ptr, after, block⟩
  have above := block.low
  rcases freeable ptr _ block.returned (by omega) with ⟨_, _, freed⟩
  have room : 0 < payloadSize heap.mem raw := by
    have high := block.high
    omega
  exact block.forged_of_freeable inv offset room (freed id fun _ _ => rfl).1

/-- In every session that a new heap can reach: if `kmalloc_aligned` returns NULL there is
nothing to free; otherwise `kfree` does not take the block back, unless the alignment
is at least 64 and the bytes in front of the pointer pass for its header. -/
theorem reachable_alignedFreeable {phys : PhysState} {offset : Nat}
    (space : FrameSpace phys offset reserved)
    (reachable : Session.Reachable reserved offset phys session) (positive : 0 < size) {k : Nat}
    (power : k < 64) :
    ∃ layout, WellFormed session layout ∧
      (Refused session.heap layout (paddedSize size (2 ^ k)) →
        AlignedFreeable session size (2 ^ k)) ∧
      (session.heap.physOffset + session.heap.phys.pmm.totalFrames * pageSize ≤ 2 ^ 47 →
        8 ∣ session.heap.physOffset → AlignedFreeable session size (2 ^ k) →
          Refused session.heap layout (paddedSize size (2 ^ k)) ∨
            (6 ≤ k ∧ Forged session size (2 ^ k))) := by
  rcases reachable_inv space reachable with ⟨layout, inv⟩
  refine ⟨layout, inv.wellFormed, inv.alignedFreeable_of_refused, fun low grain freeable => ?_⟩
  by_cases refused : Refused session.heap layout (paddedSize size (2 ^ k))
  · exact Or.inl refused
  · exact Or.inr (inv.forged_of_alignedFreeable (Nat.ne_of_gt positive) power low grain refused
      freeable)

end Aligned

/-- On the small machine nothing serves a megabyte. -/
theorem reachable_alignedFreeable_small :
    AlignedFreeable ⟨heapInit 0 smallMachine, ∅, ∅⟩ (2 ^ 20) (2 ^ 4) := by
  rcases @reachable_alignedFreeable ⟨heapInit 0 smallMachine, ∅, ∅⟩ _ (2 ^ 20) _ _
    smallMachine_space Relation.ReflTransGen.refl (by decide) 4 (by decide) with
    ⟨layout, wellFormed, freeable, _⟩
  refine freeable (Or.inr (Or.inl ⟨by decide, ?_⟩))
  have empty : layout.nodes = [] := by
    have linked := wellFormed.free_linked
    cases shape : layout.nodes with
    | nil => rfl
    | cons node rest =>
        rw [shape] at linked
        rcases linked with ⟨starts, nonzero, _⟩
        exact absurd starts.symm nonzero
  rintro (⟨b, node, _⟩ | ⟨start, fits, _⟩)
  · rw [empty] at node
    exact absurd node List.not_mem_nil
  · have total : smallMachine.pmm.totalFrames = 8 := by decide +kernel
    change start + pagesFor (paddedSize (2 ^ 20) (2 ^ 4)) ≤ smallMachine.pmm.totalFrames at fits
    have pages : pagesFor (paddedSize (2 ^ 20) (2 ^ 4)) = 257 := by decide
    omega

/-- On a new heap `kmalloc_aligned(64, 64)` returns 8256, where `kfree` finds a zero and
returns at once: the 184 bytes stay in use. -/
theorem not_alignedFreeable_small :
    (∃ heap, Heap.kmallocAligned 64 64 (heapInit 0 smallMachine) = some (8256, heap) ∧
      heapGetUsed (kfree 8256 heap) = 184) ∧
      heapGetUsed (heapInit 0 smallMachine) = 0 ∧
      ¬ AlignedFreeable ⟨heapInit 0 smallMachine, ∅, ∅⟩ 64 64 := by
  have result : (Heap.kmallocAligned 64 64 (heapInit 0 smallMachine)).map
      (fun result => (result.1, heapGetUsed (kfree 8256 result.2))) = some (8256, 184) := by
    decide +kernel
  rcases Option.map_eq_some_iff.mp result with ⟨⟨ptr, heap⟩, returned, same⟩
  rcases Prod.mk.inj same with ⟨rfl, used⟩
  refine ⟨⟨heap, returned, used⟩, rfl, fun freeable => ?_⟩
  rcases freeable 8256 heap returned (by decide) with ⟨_, _, freed⟩
  have restored : heapGetUsed (kfree 8256 heap) = 0 := (freed id fun _ _ => rfl).1
  exact absurd (used.symm.trans restored) (by decide)

end Heap
end AuraKernel
