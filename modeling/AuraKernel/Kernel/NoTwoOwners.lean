import AuraKernel.Kernel.Ownership
import Mathlib.Order.CompletePartialOrder

namespace AuraKernel
namespace Kernel

open Machine
open Physical
open Heap (payloadSize headerSize)
open Slab (zoneChunkSize)

/-!
# No memory has two owners

The live ranges are the payloads of the direct callers of the heap, the chunks
in use, the buffers behind the handles of the pool and the frames in the hands
of callers.  Ranges of one component are apart by the invariant of the
component, ranges of two components because these work in different frames.
-/

/-- Whoever owns a live range. -/
inductive Owner where
  | payload (ptr : Nat)
  | chunk (i : Fin 8) (c : Nat)
  | slot (handle : Fin 1024)
  | frame (number : Nat)
deriving DecidableEq

namespace Session

/-- The owner has been handed its range and has not given it back. -/
def Live (s : Session) : Owner → Prop
  | .payload ptr => ptr ∈ s.others
  | .chunk i c => c ∈ s.chunks i
  | .slot handle => (s.kernel.zram.pool handle).used = true
  | .frame number => number ∈ s.frames

def range (s : Session) : Owner → Set Nat
  | .payload ptr => Set.Ico ptr (ptr + payloadSize s.kernel.phys.mem ptr)
  | .chunk i c => Set.Ico c (c + zoneChunkSize i)
  | .slot handle =>
      Set.Ico (s.kernel.zram.pool handle).data
        ((s.kernel.zram.pool handle).data +
          payloadSize s.kernel.phys.mem (s.kernel.zram.pool handle).data)
  | .frame number => Set.Ico (number * pageSize) ((number + 1) * pageSize)

/-- The frames of the component that an owner is a client of. -/
def domain (s : Session) : Owner → Set Nat
  | .payload _ => s.heapFrames
  | .chunk _ _ => s.slab.allTaken
  | .slot _ => s.heapFrames
  | .frame _ => s.frames

end Session

/-- The live ranges are disjoint, lie in memory behind the kernel image, and
meet neither the bitmap nor a block header nor a free chunk, whose first word is
the link of its free list. -/
structure NoTwoOwners (s : Session) (totalFrames kernelEnd : Nat) : Prop where
  apart : ∀ o o', s.Live o → s.Live o' → o ≠ o' → Disjoint (s.range o) (s.range o')
  inMemory : ∀ o, s.Live o → s.range o ⊆ Set.Ico kernelEnd (totalFrames * pageSize)
  not_bitmap : ∀ o, s.Live o → Disjoint (s.range o) s.kernel.phys.bitmapBytes
  not_metadata : ∃ layout pages nodes, Heap.WellFormed s.pool.heapSession layout ∧
    Slab.Integrity s.slab pages nodes ∧
      ∀ o, s.Live o →
        (∀ b ∈ layout.blocks, Disjoint (s.range o) (Set.Ico b (b + headerSize))) ∧
          ∀ i, ∀ c ∈ nodes i, Disjoint (s.range o) (Set.Ico c (c + zoneChunkSize i))

section Ranges

variable {s : Session} {total : Nat} {reserved : Set Nat}

namespace SessionInv

/-- Payloads and buffers are pointers that the heap has handed out. -/
theorem payload_held (s : Session) {ptr : Nat} (member : ptr ∈ s.others) :
    ptr ∈ s.pool.heapSession.held :=
  Finset.mem_union_left _ member

theorem slot_held (s : Session) {handle : Fin 1024}
    (used : (s.kernel.zram.pool handle).used = true) :
    (s.kernel.zram.pool handle).data ∈ s.pool.heapSession.held :=
  Finset.mem_union_right _ (Zram.mem_buffers.mpr ⟨handle, used, rfl⟩)

/-- A byte of a block, its header included, lies in a frame of the heap. -/
theorem block_domain (inv : SessionInv s total reserved) {layout : Heap.Layout}
    (heapInv : Heap.SessionInv s.pool.heapSession reserved layout) {b place : Nat}
    (member : b ∈ layout.blocks) (low : b ≤ place)
    (high : place < b + headerSize + Heap.Block.size s.kernel.phys.mem b) :
    ∃ frame ∈ s.heapFrames, frame * pageSize ≤ place ∧ place < (frame + 1) * pageSize := by
  rcases heapInv.heap.block_frame member low high with ⟨frame, inHeap, within, within'⟩
  have offset : s.pool.heapSession.heap.physOffset = 0 := inv.heap_offset
  rw [← heapInv.taken] at inHeap
  rw [offset, Nat.zero_add] at within within'
  exact ⟨frame, inHeap, within, within'⟩

theorem payload_domain (inv : SessionInv s total reserved) {ptr place : Nat}
    (held : ptr ∈ s.pool.heapSession.held)
    (inside : place ∈ Set.Ico ptr (ptr + payloadSize s.kernel.phys.mem ptr)) :
    ∃ frame ∈ s.heapFrames, frame * pageSize ≤ place ∧ place < (frame + 1) * pageSize := by
  rcases inv.pool.heap with ⟨layout, heapInv⟩
  rw [heapInv.held] at held
  rcases Heap.Layout.mem_pointers.mp held with ⟨b, live, rfl⟩
  rw [Heap.payloadSize_add] at inside
  apply inv.block_domain heapInv (mem_usedBlocks.mp live).1
  · exact Nat.le_trans (Nat.le_add_right b headerSize) inside.1
  · exact inside.2

/-- A byte of a chunk lies in a page of a zone. -/
theorem chunk_domain (inv : SessionInv s total reserved) {layout : Slab.SlabLayout}
    (slabInv : Slab.SessionInv s.slab reserved layout) {i : Fin 8} {c place : Nat}
    (chunk : c ∈ layout.chunksOf s.slab.slab.physOffset i)
    (inside : place ∈ Set.Ico c (c + zoneChunkSize i)) :
    ∃ frame ∈ s.slab.allTaken, frame * pageSize ≤ place ∧ place < (frame + 1) * pageSize := by
  rcases Slab.chunk_place chunk with ⟨page, pageMem, low, high⟩
  have offset : s.slab.slab.physOffset = 0 := inv.slab_offset
  rw [offset, Nat.zero_add] at low high
  refine ⟨page, slabInv.mem_allTaken.mpr ⟨i, pageMem⟩, ?_, ?_⟩
  · exact Nat.le_trans low inside.1
  · exact Nat.lt_of_lt_of_le inside.2 high

/-- A range lies in the frames of its component. -/
theorem range_domain (inv : SessionInv s total reserved) {o : Owner} (live : s.Live o)
    {place : Nat} (inside : place ∈ s.range o) :
    ∃ frame ∈ s.domain o, frame * pageSize ≤ place ∧ place < (frame + 1) * pageSize := by
  cases o with
  | payload ptr => exact inv.payload_domain (payload_held s live) inside
  | chunk i c =>
      rcases inv.slab with ⟨layout, slabInv⟩
      apply inv.chunk_domain slabInv _ inside
      apply slabInv.slab.live_mem
      have chunks := congrFun slabInv.live i
      change s.chunks i = _ at chunks
      exact chunks ▸ live
  | slot handle => exact inv.payload_domain (slot_held s live) inside
  | frame number => exact ⟨number, live, inside.1, inside.2⟩

/-- The frames of the components are in use and not reserved. -/
theorem domain_owned (inv : SessionInv s total reserved) {o : Owner} {frame : Nat}
    (member : frame ∈ s.domain o) :
    frame < s.kernel.phys.pmm.totalFrames ∧ s.kernel.phys.Used frame ∧ frame ∉ reserved := by
  cases o with
  | payload ptr => exact inv.heapFrames_owned member
  | chunk i c => exact inv.zoneFrames_owned member
  | slot handle => exact inv.heapFrames_owned member
  | frame number => exact inv.frames_owned member

/-- A byte in frames of two components. -/
theorem disjoint_of_domains {one two own own' : Set Nat}
    (ownFrame : ∀ place ∈ one, ∃ frame ∈ own, frame * pageSize ≤ place ∧
      place < (frame + 1) * pageSize)
    (ownFrame' : ∀ place ∈ two, ∃ frame ∈ own', frame * pageSize ≤ place ∧
      place < (frame + 1) * pageSize)
    (apart : ∀ frame ∈ own, frame ∉ own') : Disjoint one two := by
  apply Set.disjoint_left.mpr
  intro place inOne inTwo
  rcases ownFrame place inOne with ⟨frame, member, low, high⟩
  rcases ownFrame' place inTwo with ⟨frame', member', low', high'⟩
  have same : frame = frame' := by
    unfold pageSize at *
    omega
  exact apart frame member (same ▸ member')

/-- Ranges of two components are disjoint. -/
theorem apart_of_domains (inv : SessionInv s total reserved) {o o' : Owner} (live : s.Live o)
    (live' : s.Live o') (apart : ∀ frame ∈ s.domain o, frame ∉ s.domain o') :
    Disjoint (s.range o) (s.range o') :=
  disjoint_of_domains (fun _ inside => inv.range_domain live inside)
    (fun _ inside => inv.range_domain live' inside) apart

/-- Two different pointers of the heap have disjoint payloads. -/
theorem apart_of_pointers (inv : SessionInv s total reserved) {ptr ptr' : Nat}
    (held : ptr ∈ s.pool.heapSession.held) (held' : ptr' ∈ s.pool.heapSession.held)
    (different : ptr ≠ ptr') :
    Disjoint (Set.Ico ptr (ptr + payloadSize s.kernel.phys.mem ptr))
      (Set.Ico ptr' (ptr' + payloadSize s.kernel.phys.mem ptr')) := by
  rcases inv.pool.heap with ⟨layout, heapInv⟩
  rw [heapInv.held] at held held'
  have apart := heapInv.heap.payloads_apart held held' different
  change ptr + payloadSize s.kernel.phys.mem ptr ≤ ptr' ∨
    ptr' + payloadSize s.kernel.phys.mem ptr' ≤ ptr at apart
  apply Set.disjoint_left.mpr
  rintro place ⟨low, high⟩ ⟨low', high'⟩
  omega

theorem apart_of_chunks (inv : SessionInv s total reserved) {i j : Fin 8} {c d : Nat}
    (live : c ∈ s.chunks i) (live' : d ∈ s.chunks j) (different : i ≠ j ∨ c ≠ d) :
    Disjoint (Set.Ico c (c + zoneChunkSize i)) (Set.Ico d (d + zoneChunkSize j)) := by
  rcases inv.slab with ⟨layout, slabInv⟩
  have apart := slabInv.integrity.chunks_apart i j c d (Or.inr live) (Or.inr live') different
  apply Set.disjoint_left.mpr
  rintro place ⟨low, high⟩ ⟨low', high'⟩
  omega

theorem ranges_apart (inv : SessionInv s total reserved) (o o' : Owner) (live : s.Live o)
    (live' : s.Live o') (different : o ≠ o') : Disjoint (s.range o) (s.range o') := by
  have slabHeap : ∀ frame ∈ s.heapFrames, frame ∉ s.slab.allTaken :=
    fun frame inHeap inZone => inv.slab_heap frame inZone inHeap
  have heapFrames : ∀ frame ∈ s.heapFrames, frame ∉ s.frames :=
    fun frame inHeap held => inv.frames_heap frame held inHeap
  have slabFrames : ∀ frame ∈ s.slab.allTaken, frame ∉ s.frames :=
    fun frame inZone held => inv.frames_slab frame held inZone
  cases o with
  | payload ptr =>
      cases o' with
      | payload ptr' =>
          apply inv.apart_of_pointers (payload_held s live) (payload_held s live')
          exact fun same => different (congrArg Owner.payload same)
      | chunk j d => exact inv.apart_of_domains live live' slabHeap
      | slot handle' =>
          apply inv.apart_of_pointers (payload_held s live) (slot_held s live')
          rintro rfl
          exact inv.pool.apart _ live (Zram.mem_buffers.mpr ⟨handle', live', rfl⟩)
      | frame number' => exact inv.apart_of_domains live live' heapFrames
  | chunk i c =>
      cases o' with
      | payload ptr' => exact inv.apart_of_domains live live' inv.slab_heap
      | chunk j d =>
          apply inv.apart_of_chunks live live'
          by_cases same : i = j
          · subst same
            exact Or.inr fun equal => different (congrArg (Owner.chunk i) equal)
          · exact Or.inl same
      | slot handle' => exact inv.apart_of_domains live live' inv.slab_heap
      | frame number' => exact inv.apart_of_domains live live' slabFrames
  | slot handle =>
      cases o' with
      | payload ptr' =>
          apply inv.apart_of_pointers (slot_held s live) (payload_held s live')
          rintro rfl
          exact inv.pool.apart _ live' (Zram.mem_buffers.mpr ⟨handle, live, rfl⟩)
      | chunk j d => exact inv.apart_of_domains live live' slabHeap
      | slot handle' =>
          apply inv.apart_of_pointers (slot_held s live) (slot_held s live')
          exact fun same => different (congrArg Owner.slot
            (inv.pool.distinct handle handle' live live' same))
      | frame number' => exact inv.apart_of_domains live live' heapFrames
  | frame number =>
      cases o' with
      | payload ptr' => exact inv.apart_of_domains live live' inv.frames_heap
      | chunk j d => exact inv.apart_of_domains live live' inv.frames_slab
      | slot handle' => exact inv.apart_of_domains live live' inv.frames_heap
      | frame number' =>
          apply Set.disjoint_left.mpr
          rintro place ⟨low, high⟩ ⟨low', high'⟩
          have same : number = number' := by
            unfold pageSize at *
            omega
          exact different (congrArg Owner.frame same)

/-- A range meets no byte of the bitmap. -/
theorem range_not_bitmap (inv : SessionInv s total reserved) {o : Owner} (live : s.Live o) :
    Disjoint (s.range o) s.kernel.phys.bitmapBytes := by
  apply Set.disjoint_left.mpr
  intro place inside inBitmap
  rcases inv.range_domain live inside with ⟨frame, member, low, high⟩
  rcases inv.domain_owned member with ⟨bound, _, notReserved⟩
  refine notReserved (inv.space.bitmap_reserved frame bound place inBitmap ?_ ?_)
  · rw [Nat.zero_add]
    exact low
  · rw [Nat.zero_add]
    exact high

/-- A range meets no header of a block. -/
theorem range_not_header (inv : SessionInv s total reserved) {layout : Heap.Layout}
    (heapInv : Heap.SessionInv s.pool.heapSession reserved layout) {o : Owner} (live : s.Live o)
    {b : Nat} (member : b ∈ layout.blocks) :
    Disjoint (s.range o) (Set.Ico b (b + headerSize)) := by
  have headerDomain : ∀ place ∈ Set.Ico b (b + headerSize), ∃ frame ∈ s.heapFrames,
      frame * pageSize ≤ place ∧ place < (frame + 1) * pageSize := fun place inside =>
    inv.block_domain heapInv member inside.1 (Nat.lt_of_lt_of_le inside.2 (Nat.le_add_right _ _))
  have pointer : ∀ ptr, ptr ∈ s.pool.heapSession.held →
      Disjoint (Set.Ico ptr (ptr + payloadSize s.kernel.phys.mem ptr))
        (Set.Ico b (b + headerSize)) := by
    intro ptr held
    rw [heapInv.held] at held
    rcases Heap.Layout.mem_pointers.mp held with ⟨own, ownLive, rfl⟩
    rw [Heap.payloadSize_add]
    apply Set.disjoint_left.mpr
    rintro place ⟨low, high⟩ ⟨low', high'⟩
    have outside := heapInv.heap.payload_outside (mem_usedBlocks.mp ownLive).1 low high b
      member
    omega
  cases o with
  | payload ptr => exact pointer ptr (payload_held s live)
  | chunk i c =>
      exact disjoint_of_domains (fun _ inside => inv.range_domain live inside) headerDomain
        inv.slab_heap
  | slot handle => exact pointer _ (slot_held s live)
  | frame number =>
      exact disjoint_of_domains (fun _ inside => inv.range_domain live inside) headerDomain
        inv.frames_heap

/-- A range meets no chunk of a free list. -/
theorem range_not_free (inv : SessionInv s total reserved) {layout : Slab.SlabLayout}
    (slabInv : Slab.SessionInv s.slab reserved layout) {o : Owner} (live : s.Live o) {i : Fin 8}
    {c : Nat} (node : c ∈ layout.nodes i) :
    Disjoint (s.range o) (Set.Ico c (c + zoneChunkSize i)) := by
  have nodeDomain : ∀ place ∈ Set.Ico c (c + zoneChunkSize i), ∃ frame ∈ s.slab.allTaken,
      frame * pageSize ≤ place ∧ place < (frame + 1) * pageSize := fun place inside =>
    inv.chunk_domain slabInv (slabInv.slab.node_mem node) inside
  have heapApart : ∀ frame ∈ s.heapFrames, frame ∉ s.slab.allTaken :=
    fun frame inHeap inZone => inv.slab_heap frame inZone inHeap
  have ownDomain := fun place (inside : place ∈ s.range o) => inv.range_domain live inside
  cases o with
  | payload ptr => exact disjoint_of_domains ownDomain nodeDomain heapApart
  | chunk j d =>
      have different : j ≠ i ∨ d ≠ c := by
        by_cases same : j = i
        · subst same
          exact Or.inr fun equal =>
            slabInv.integrity.free_not_live j c node (equal ▸ live)
        · exact Or.inl same
      have apart := slabInv.integrity.chunks_apart j i d c (Or.inr live) (Or.inl node) different
      apply Set.disjoint_left.mpr
      rintro place ⟨low, high⟩ ⟨low', high'⟩
      omega
  | slot handle => exact disjoint_of_domains ownDomain nodeDomain heapApart
  | frame number => exact disjoint_of_domains ownDomain nodeDomain inv.frames_slab

end SessionInv

end Ranges

/-- After boot, in any order of calls and writes in which everybody gives back
only what it holds, no memory has two owners. -/
theorem reachable_noTwoOwners {totalMemoryBytes kernelEnd : Nat} {phys : PhysState} {s : Session}
    (bound : totalMemoryBytes < 2 ^ 64) (image : 0 < kernelEnd)
    (fits : ImageFits (ramSize totalMemoryBytes) kernelEnd)
    (reachable : Session.Reachable totalMemoryBytes kernelEnd phys s) :
    NoTwoOwners s (ramSize totalMemoryBytes / pageSize) kernelEnd := by
  have inv := reachable.inv bound image fits
  rcases inv.pool.heap with ⟨layout, heapInv⟩
  rcases inv.slab with ⟨slabLayout, slabInv⟩
  constructor
  case apart => exact inv.ranges_apart
  case inMemory =>
    intro o live place inside
    rcases inv.range_domain live inside with ⟨frame, member, low, high⟩
    rcases inv.domain_owned member with ⟨inMemory, _, notReserved⟩
    have totalEq : s.kernel.phys.pmm.totalFrames = ramSize totalMemoryBytes / pageSize :=
      inv.custody.total_eq
    rw [totalEq] at inMemory
    rw [Set.mem_ofPred_eq, Nat.not_lt] at notReserved
    rcases reserved_cover fits with ⟨behind, covers⟩
    have first := Nat.mul_le_mul_right pageSize notReserved
    have last : (frame + 1) * pageSize ≤ _ := Nat.mul_le_mul_right pageSize inMemory
    constructor <;> omega
  case not_bitmap => exact fun o live => inv.range_not_bitmap live
  case not_metadata =>
    refine ⟨layout, slabLayout.pages, slabLayout.nodes, heapInv.wellFormed, slabInv.integrity, ?_⟩
    intro o live
    exact ⟨fun b member => inv.range_not_header heapInv live member,
      fun i c node => inv.range_not_free slabInv live node⟩

theorem live_after_zalloc (s : Session) (empty : s.chunks = fun _ => ∅)
    (granted : (Slab.zalloc 100 s.slab.slab).1 = 16256) :
    (s.withSlab (s.slab.zalloc 100)).Live (.chunk 3 16256) := by
  change 16256 ∈ Slab.handOut s.chunks 100 (Slab.zalloc 100 s.slab.slab).1 3
  rw [empty, granted]
  decide

/-- The session in which the first free frame of a machine of eight frames has
been handed out. -/
def smallSession : Session :=
  let boot := Session.boot 32768 4000 ⟨fun _ => 0, ⟨0, 0, 0, 0⟩⟩
  boot.withCustody ⟨(pmmAllocFrame boot.kernel.phys).2,
    boot.frames ∪ framesOf (pmmAllocFrame boot.kernel.phys).1 1⟩

/-- A chunk is handed out after it. -/
theorem reachable_noTwoOwners_small :
    ∃ s, Session.Reachable 32768 4000 ⟨fun _ => 0, ⟨0, 0, 0, 0⟩⟩ s ∧
      s.Live (.frame 2) ∧ s.Live (.chunk 3 16256) ∧ NoTwoOwners s 8 4000 := by
  have reachable : Session.Reachable 32768 4000 ⟨fun _ => 0, ⟨0, 0, 0, 0⟩⟩
      (smallSession.withSlab (smallSession.slab.zalloc 100)) :=
    (Relation.ReflTransGen.single Session.Step.allocFrame).tail (Session.Step.zalloc 100)
  have address : (pmmAllocFrame (Session.boot 32768 4000
      ⟨fun _ => 0, ⟨0, 0, 0, 0⟩⟩).kernel.phys).1 = 2 * pageSize := by decide +kernel
  have frame : 2 ∈ smallSession.frames := by
    apply Or.inr
    rw [address, framesOf_address (by decide), frames_single]
    rfl
  have empty : smallSession.chunks = fun _ => ∅ := rfl
  have chunk : (Slab.zalloc 100 smallSession.slab.slab).1 = 16256 := by decide +kernel
  refine ⟨_, reachable, frame, live_after_zalloc smallSession empty chunk, ?_⟩
  exact reachable_noTwoOwners (by decide) (by decide) (imageFits_of_le (by decide) (by decide))
    reachable

end Kernel
end AuraKernel
