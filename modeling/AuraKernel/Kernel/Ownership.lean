import AuraKernel.Kernel.Footprints
import AuraKernel.Kernel.Kernel

namespace AuraKernel
namespace Kernel

open Machine
open Physical
open Heap (payloadSize HeapState)
open Slab (zoneChunkSize FreeAllowed)
open Zram (Page zramStore zramLoad)

/-!
# Owners of memory

A session is the kernel with everything that has been handed out: pointers of
the heap, chunks of the slab allocator, handles of the pool and frames.  The
three components work in frames of their own, so that a step of one of them is
a step that the others do not notice.
-/

/-- The kernel, what its callers hold, and the frames of the heap and of the zones. -/
structure Session where
  kernel : KernelState
  others : Finset Nat
  heapFrames : Set Nat
  streams : Fin 1024 → Option (List UInt8)
  chunks : Fin 8 → Finset Nat
  zoneFrames : Fin 8 → Set Nat
  frames : Set Nat

namespace Session

def pool (s : Session) : Zram.Session where
  zram := s.kernel.zram
  others := s.others
  taken := s.heapFrames
  streams := s.streams

def slab (s : Session) : Slab.Session where
  slab := s.kernel.slab
  live := s.chunks
  taken := s.zoneFrames

/-- The frame manager with its direct callers. -/
def custody (s : Session) : Custody where
  phys := s.kernel.phys
  handed := s.frames

/-- The session after a step of the pool or of the heap. -/
def withPool (s : Session) (z : Zram.Session) : Session where
  kernel := { s.kernel with zram := z.zram }
  others := z.others
  heapFrames := z.taken
  streams := z.streams
  chunks := s.chunks
  zoneFrames := s.zoneFrames
  frames := s.frames

/-- The session after a step of the slab allocator. -/
def withSlab (s : Session) (t : Slab.Session) : Session where
  kernel := s.kernel.withSlab t.slab
  others := s.others
  heapFrames := s.heapFrames
  streams := s.streams
  chunks := t.live
  zoneFrames := t.taken
  frames := s.frames

/-- The session after a step of the frame manager. -/
def withCustody (s : Session) (c : Custody) : Session where
  kernel := s.kernel.withPhys c.phys
  others := s.others
  heapFrames := s.heapFrames
  streams := s.streams
  chunks := s.chunks
  zoneFrames := s.zoneFrames
  frames := c.handed

end Session

/-- The calls of `kmalloc`, `kfree`, `krealloc`, `zram_store`, `zram_load`,
`zram_free`, `zalloc`, `zfree`, `pmm_alloc_frame`, `pmm_alloc_contiguous` and
`pmm_free_frame`, and the writes of the callers to what they hold. -/
inductive Session.Step : Session → Session → Prop
  | heapCall {s : Session} (call : Heap.Call) (result : Nat) (heap : HeapState)
      (allowed : call.Allowed s.others) (returns : call.run s.kernel.heap = some (result, heap)) :
      Step s (s.withPool (s.pool.call call result heap))
  | store {s : Session} (src : Option Page) (outHandle : Option Nat) (code : Int)
      (outHandle' : Option Nat) (z : Zram.ZramState)
      (returns : zramStore src outHandle s.kernel.zram = some (code, outHandle', z)) :
      Step s (s.withPool (s.pool.store src code outHandle' z))
  | load {s : Session} (handle : Nat) (dst : Option (List UInt8)) (code : Int)
      (dst' : Option (List UInt8)) (z : Zram.ZramState)
      (returns : zramLoad handle dst s.kernel.zram = some (code, dst', z)) :
      Step s (s.withPool { s.pool with zram := z })
  | zramFree {s : Session} (handle : Nat) : Step s (s.withPool (s.pool.free handle))
  | zalloc {s : Session} (size : Nat) : Step s (s.withSlab (s.slab.zalloc size))
  | zfree {s : Session} (ptr size : Nat) (allowed : FreeAllowed s.chunks ptr size) :
      Step s (s.withSlab (s.slab.zfree ptr size))
  | allocFrame {s : Session} :
      Step s (s.withCustody ⟨(pmmAllocFrame s.kernel.phys).2,
        s.frames ∪ framesOf (pmmAllocFrame s.kernel.phys).1 1⟩)
  | allocContiguous {s : Session} (frameCount : Nat) :
      Step s (s.withCustody ⟨(pmmAllocContiguous frameCount s.kernel.phys).2,
        s.frames ∪ framesOf (pmmAllocContiguous frameCount s.kernel.phys).1 frameCount⟩)
  | freeFrame {s : Session} (paddr : Nat) (member : paddr / pageSize ∈ s.frames) :
      Step s (s.withCustody ⟨pmmFreeFrame paddr s.kernel.phys, s.frames \ {paddr / pageSize}⟩)
  | writePayload {s : Session} (ptr : Nat) (assign : Mem → Mem) (member : ptr ∈ s.others)
      (only : ∀ place, (place < ptr ∨ ptr + payloadSize s.kernel.heap.mem ptr ≤ place) →
        assign s.kernel.heap.mem place = s.kernel.heap.mem place) :
      Step s (s.withPool
        { s.pool with zram := { s.pool.zram with heap := s.pool.zram.heap.write assign } })
  | writeChunk {s : Session} (i : Fin 8) (c : Nat) (member : c ∈ s.chunks i) (mem : Mem)
      (only : ∀ place, (place < c ∨ c + zoneChunkSize i ≤ place) →
        mem place = s.kernel.phys.mem place) :
      Step s (s.withSlab { s.slab with slab := s.slab.slab.setMem mem })
  | writeFrame {s : Session} (frame : Nat) (member : frame ∈ s.frames) (mem : Mem)
      (only : ∀ place, (place < frame * pageSize ∨ (frame + 1) * pageSize ≤ place) →
        mem place = s.kernel.phys.mem place) :
      Step s (s.withCustody ⟨{ s.kernel.phys with mem := mem }, s.frames⟩)

/-- The kernel after boot, with nothing handed out. -/
def Session.boot (totalMemoryBytes kernelEnd : Nat) (phys : PhysState) : Session where
  kernel := kernelMain totalMemoryBytes kernelEnd phys
  others := ∅
  heapFrames := ∅
  streams := fun _ => none
  chunks := fun _ => ∅
  zoneFrames := fun _ => ∅
  frames := ∅

def Session.Reachable (totalMemoryBytes kernelEnd : Nat) (phys : PhysState) : Session → Prop :=
  Relation.ReflTransGen Session.Step (Session.boot totalMemoryBytes kernelEnd phys)

/-! ## The invariant -/

/-- Each component keeps its own invariant, and no frame belongs to two of them. -/
structure SessionInv (s : Session) (total : Nat) (reserved : Set Nat) : Prop where
  pool : Zram.SessionInv s.pool reserved
  slab : ∃ layout, Slab.SessionInv s.slab reserved layout
  custody : CustodyInv s.custody 0 total reserved
  heap_offset : s.kernel.heap.physOffset = 0
  slab_offset : s.kernel.slabPhysOffset = 0
  slab_heap : ∀ frame ∈ s.slab.allTaken, frame ∉ s.heapFrames
  frames_heap : ∀ frame ∈ s.frames, frame ∉ s.heapFrames
  frames_slab : ∀ frame ∈ s.frames, frame ∉ s.slab.allTaken

section Steps

variable {s t : Session} {total : Nat} {reserved : Set Nat}

namespace SessionInv

theorem space (inv : SessionInv s total reserved) : FrameSpace s.kernel.phys 0 reserved :=
  inv.custody.space

/-- The frames of the heap are in use and not reserved. -/
theorem heapFrames_owned (inv : SessionInv s total reserved) {frame : Nat}
    (member : frame ∈ s.heapFrames) :
    frame < s.kernel.phys.pmm.totalFrames ∧ s.kernel.phys.Used frame ∧ frame ∉ reserved := by
  rcases inv.pool.heap with ⟨layout, heapInv⟩
  have inHeap : frame ∈ layout.frames s.kernel.heap.physOffset := by
    have taken := heapInv.taken
    change s.heapFrames = _ at taken
    exact taken ▸ member
  rcases heapInv.heap.frames_owned inHeap with ⟨used, notReserved, bound⟩
  exact ⟨bound, used, notReserved⟩

/-- The pages of the zones are in use and not reserved. -/
theorem zoneFrames_owned (inv : SessionInv s total reserved) {frame : Nat}
    (member : frame ∈ s.slab.allTaken) :
    frame < s.kernel.phys.pmm.totalFrames ∧ s.kernel.phys.Used frame ∧ frame ∉ reserved := by
  rcases inv.slab with ⟨layout, slabInv⟩
  rcases slabInv.mem_allTaken.mp member with ⟨i, inZone⟩
  exact (slabInv.slab.zone i).owned frame inZone

/-- The frames of the callers are in use and not reserved. -/
theorem frames_owned (inv : SessionInv s total reserved) {frame : Nat}
    (member : frame ∈ s.frames) :
    frame < s.kernel.phys.pmm.totalFrames ∧ s.kernel.phys.Used frame ∧ frame ∉ reserved := by
  rcases inv.custody.handed frame member with ⟨bound, owned⟩
  have totalEq : s.kernel.phys.pmm.totalFrames = total := inv.custody.total_eq
  exact ⟨totalEq.symm ▸ bound, owned⟩

/-- The pool does not notice a step that is confined to other frames. -/
theorem pool_other (inv : SessionInv s total reserved) {phys : PhysState} {own own' : Set Nat}
    (confined : Confined 0 s.kernel.phys phys own own') (space : FrameSpace phys 0 reserved)
    (apart : ∀ frame ∈ s.heapFrames, frame ∉ own) :
    Zram.SessionInv { s.pool with
      zram := { s.pool.zram with heap := { s.pool.zram.heap with phys := phys } } } reserved := by
  have offset : s.pool.zram.heap.physOffset = 0 := inv.heap_offset
  have spared : ∀ frame ∈ s.heapFrames, _ := fun frame member =>
    confined.spares inv.space (inv.heapFrames_owned member).1 (inv.heapFrames_owned member).2.1
      (inv.heapFrames_owned member).2.2 (apart frame member)
  apply inv.pool.other
  · rw [offset]
    exact space
  · exact confined.total_eq
  · exact fun frame member => (spared frame member).1
  · rw [offset]
    exact fun frame member => (spared frame member).2.2

/-- The slab allocator does not notice a step that is confined to other frames. -/
theorem slab_other (inv : SessionInv s total reserved) {phys : PhysState} {own own' : Set Nat}
    (confined : Confined 0 s.kernel.phys phys own own') (space : FrameSpace phys 0 reserved)
    (apart : ∀ frame ∈ s.slab.allTaken, frame ∉ own) :
    ∃ layout, Slab.SessionInv { s.slab with slab := { s.slab.slab with phys := phys } } reserved
      layout := by
  rcases inv.slab with ⟨layout, slabInv⟩
  have offset : s.slab.slab.physOffset = 0 := inv.slab_offset
  have spared : ∀ frame ∈ s.slab.allTaken, _ := fun frame member =>
    confined.spares inv.space (inv.zoneFrames_owned member).1 (inv.zoneFrames_owned member).2.1
      (inv.zoneFrames_owned member).2.2 (apart frame member)
  refine ⟨layout, slabInv.other ?_ confined.total_eq ?_ ?_⟩
  · rw [offset]
    exact space
  · exact fun i page member => (spared page ⟨i, member⟩).1
  · intro i page member place inPage
    unfold Slab.inPage at inPage
    rw [offset] at inPage
    exact (spared page ⟨i, member⟩).2.2 place inPage.1 inPage.2

/-- A set of frames of somebody else stays apart from the frames of the component. -/
theorem apart_after (inv : SessionInv s total reserved) {phys : PhysState} {own own' : Set Nat}
    (confined : Confined 0 s.kernel.phys phys own own') {frame : Nat}
    (owned : frame < s.kernel.phys.pmm.totalFrames ∧ s.kernel.phys.Used frame ∧ frame ∉ reserved)
    (apart : frame ∉ own) : frame ∉ own' :=
  (confined.spares inv.space owned.1 owned.2.1 owned.2.2 apart).2.1

theorem withPool (inv : SessionInv s total reserved) {z : Zram.Session}
    (pool : Zram.SessionInv z reserved) (stays : Zram.Stays s.pool z) :
    SessionInv (s.withPool z) total reserved := by
  have offset : z.zram.heap.physOffset = 0 := stays.physOffset_eq.trans inv.heap_offset
  have confined : Confined 0 s.kernel.phys z.zram.heap.phys s.heapFrames z.taken := by
    have confined := stays.confined
    have before : s.pool.zram.heap.physOffset = 0 := inv.heap_offset
    rw [before] at confined
    exact confined
  have space : FrameSpace z.zram.heap.phys 0 reserved := by
    rcases pool.heap with ⟨layout, heapInv⟩
    have space := heapInv.heap.space
    change FrameSpace z.zram.heap.phys z.zram.heap.physOffset reserved at space
    rw [offset] at space
    exact space
  constructor
  case pool => exact pool
  case slab => exact inv.slab_other confined space inv.slab_heap
  case custody => exact inv.custody.other confined space inv.frames_heap
  case heap_offset => exact offset
  case slab_offset => exact inv.slab_offset
  case slab_heap =>
    intro frame member
    exact inv.apart_after confined (inv.zoneFrames_owned member) (inv.slab_heap frame member)
  case frames_heap =>
    intro frame member
    exact inv.apart_after confined (inv.frames_owned member) (inv.frames_heap frame member)
  case frames_slab => exact inv.frames_slab

theorem withSlab (inv : SessionInv s total reserved) {t : Slab.Session} {layout : Slab.SlabLayout}
    (slab : Slab.SessionInv t reserved layout) (offset : t.slab.physOffset = 0)
    (confined : Confined 0 s.kernel.phys t.slab.phys s.slab.allTaken t.allTaken) :
    SessionInv (s.withSlab t) total reserved := by
  have space : FrameSpace t.slab.phys 0 reserved := by
    have space := slab.slab.space
    rw [offset] at space
    exact space
  constructor
  case pool => exact inv.pool_other confined space fun frame inHeap inZone =>
    inv.slab_heap frame inZone inHeap
  case slab => exact ⟨layout, slab⟩
  case custody => exact inv.custody.other confined space inv.frames_slab
  case heap_offset => exact inv.heap_offset
  case slab_offset => exact offset
  case slab_heap =>
    intro frame member inHeap
    refine inv.apart_after confined (inv.heapFrames_owned inHeap) ?_ member
    exact fun inZone => inv.slab_heap frame inZone inHeap
  case frames_heap => exact inv.frames_heap
  case frames_slab =>
    intro frame member
    exact inv.apart_after confined (inv.frames_owned member) (inv.frames_slab frame member)

theorem withCustody (inv : SessionInv s total reserved) {c : Custody}
    (custody : CustodyInv c 0 total reserved)
    (confined : Confined 0 s.kernel.phys c.phys s.frames c.handed) :
    SessionInv (s.withCustody c) total reserved := by
  constructor
  case pool => exact inv.pool_other confined custody.space fun frame inHeap held =>
    inv.frames_heap frame held inHeap
  case slab => exact inv.slab_other confined custody.space fun frame inZone held =>
    inv.frames_slab frame held inZone
  case custody => exact custody
  case heap_offset => exact inv.heap_offset
  case slab_offset => exact inv.slab_offset
  case slab_heap => exact inv.slab_heap
  case frames_heap =>
    intro frame member inHeap
    refine inv.apart_after confined (inv.heapFrames_owned inHeap) ?_ member
    exact fun held => inv.frames_heap frame held inHeap
  case frames_slab =>
    intro frame member inZone
    refine inv.apart_after confined (inv.zoneFrames_owned inZone) ?_ member
    exact fun held => inv.frames_slab frame held inZone

/-! ## Steps -/

/-- A call of the frame manager that hands out frames. -/
theorem hands_out (inv : SessionInv s total reserved) {phys : PhysState} {taken : Set Nat}
    (custody : CustodyInv ⟨phys, s.frames ∪ taken⟩ 0 total reserved)
    (takes : (phys = s.kernel.phys ∧ taken = ∅) ∨ Takes s.kernel.phys phys taken) :
    SessionInv (s.withCustody ⟨phys, s.frames ∪ taken⟩) total reserved := by
  apply inv.withCustody custody
  rcases takes with ⟨rfl, rfl⟩ | takes
  · rw [Set.union_empty]
    exact Confined.refl _ _ _
  · exact takes.confined

theorem allocFrame (inv : SessionInv s total reserved) :
    SessionInv (s.withCustody ⟨(pmmAllocFrame s.kernel.phys).2,
      s.frames ∪ framesOf (pmmAllocFrame s.kernel.phys).1 1⟩) total reserved := by
  have custody := inv.custody.step (Custody.Step.allocFrame s.custody)
  refine @hands_out _ _ _ inv (pmmAllocFrame s.kernel.phys).2 _ custody ?_
  rcases inv.space.allocFrame with ⟨failed, _⟩ | ⟨frame, _, _, _, nonzero, address, takes⟩
  · rw [failed]
    exact Or.inl ⟨rfl, framesOf_zero 1⟩
  · rw [address, framesOf_address nonzero, frames_single]
    exact Or.inr takes

theorem allocContiguous (inv : SessionInv s total reserved) (frameCount : Nat) :
    SessionInv (s.withCustody ⟨(pmmAllocContiguous frameCount s.kernel.phys).2,
      s.frames ∪ framesOf (pmmAllocContiguous frameCount s.kernel.phys).1 frameCount⟩)
      total reserved := by
  have custody := inv.custody.step (Custody.Step.allocContiguous s.custody frameCount)
  refine @hands_out _ _ _ inv (pmmAllocContiguous frameCount s.kernel.phys).2 _ custody ?_
  rcases inv.space.allocContiguous frameCount with
    failed | ⟨start, _, _, nonzero, _, address, takes⟩
  · rw [failed]
    exact Or.inl ⟨rfl, framesOf_zero frameCount⟩
  · rw [address, framesOf_address nonzero]
    exact Or.inr takes

theorem freeFrame (inv : SessionInv s total reserved) {paddr : Nat}
    (member : paddr / pageSize ∈ s.frames) :
    SessionInv (s.withCustody ⟨pmmFreeFrame paddr s.kernel.phys, s.frames \ {paddr / pageSize}⟩)
      total reserved := by
  rcases inv.frames_owned member with ⟨bound, used, _⟩
  apply inv.withCustody (inv.custody.step (Custody.Step.freeFrame s.custody paddr member))
  exact (pmmMarkFree_effect inv.space.pmm bound used).confined member

theorem writeFrame (inv : SessionInv s total reserved) {frame : Nat} (member : frame ∈ s.frames)
    {mem : Mem} (only : ∀ place, (place < frame * pageSize ∨ (frame + 1) * pageSize ≤ place) →
      mem place = s.kernel.phys.mem place) :
    SessionInv (s.withCustody ⟨{ s.kernel.phys with mem := mem }, s.frames⟩) total reserved := by
  rcases inv.frames_owned member with ⟨bound, _, notReserved⟩
  have bitmap : ∀ place ∈ s.kernel.phys.bitmapBytes, mem place = s.kernel.phys.mem place := by
    intro place inBitmap
    apply only
    by_contra inside
    refine notReserved (inv.space.bitmap_reserved frame bound place inBitmap ?_ ?_) <;> omega
  apply inv.withCustody (inv.custody.step (Custody.Step.write s.custody mem bitmap))
  apply confined_of_write
  · intro other inMemory used
    exact (@used_congr s.kernel.phys { s.kernel.phys with mem := mem } rfl bitmap other
      inMemory).mpr used
  · intro place away
    apply only
    have apart := away frame member
    rwa [Nat.zero_add, Nat.zero_add] at apart

theorem zalloc (inv : SessionInv s total reserved) (size : Nat) :
    SessionInv (s.withSlab (s.slab.zalloc size)) total reserved := by
  rcases inv.slab with ⟨layout, slabInv⟩
  rcases slabInv.zalloc size with ⟨after, slabInv', effect⟩
  have confined := effect.confined slabInv slabInv'
  have offset : s.slab.slab.physOffset = 0 := inv.slab_offset
  rw [offset] at confined
  exact inv.withSlab slabInv' (effect.physOffset_eq.trans offset) confined

theorem zfree (inv : SessionInv s total reserved) {ptr size : Nat}
    (allowed : FreeAllowed s.chunks ptr size) :
    SessionInv (s.withSlab (s.slab.zfree ptr size)) total reserved := by
  rcases inv.slab with ⟨layout, slabInv⟩
  rcases @Slab.SessionInv.zfree _ _ _ slabInv ptr size allowed with ⟨after, slabInv', effect⟩
  have confined := effect.confined slabInv slabInv'
  have offset : s.slab.slab.physOffset = 0 := inv.slab_offset
  rw [offset] at confined
  exact inv.withSlab slabInv' (effect.physOffset_eq.trans offset) confined

theorem writeChunk (inv : SessionInv s total reserved) {i : Fin 8} {c : Nat}
    (member : c ∈ s.chunks i) {mem : Mem}
    (only : ∀ place, (place < c ∨ c + zoneChunkSize i ≤ place) →
      mem place = s.kernel.phys.mem place) :
    SessionInv (s.withSlab { s.slab with slab := s.slab.slab.setMem mem }) total reserved := by
  rcases inv.slab with ⟨layout, slabInv⟩
  have confined := @Slab.SessionInv.write_confined _ _ _ slabInv i c member mem only
  have offset : s.slab.slab.physOffset = 0 := inv.slab_offset
  rw [offset] at confined
  exact inv.withSlab (@Slab.SessionInv.write _ _ _ slabInv i c member mem only) offset confined

theorem step (inv : SessionInv s total reserved) (step : Session.Step s t) :
    SessionInv t total reserved := by
  cases step with
  | heapCall call result heap allowed returns =>
      exact inv.withPool (inv.pool.call allowed returns) (inv.pool.call_stays allowed returns)
  | store src outHandle code outHandle' z returns =>
      exact inv.withPool (inv.pool.store returns).1 (inv.pool.store_stays returns)
  | load handle dst code dst' z returns =>
      have loaded : Zram.Session.Step reserved s.pool { s.pool with zram := z } :=
        .load handle dst code dst' z returns
      exact inv.withPool (inv.pool.step loaded) (inv.pool.load_stays returns)
  | zramFree handle =>
      exact inv.withPool (inv.pool.free handle) (inv.pool.free_stays handle)
  | zalloc size => exact inv.zalloc size
  | zfree ptr size allowed => exact inv.zfree allowed
  | allocFrame => exact inv.allocFrame
  | allocContiguous frameCount => exact inv.allocContiguous frameCount
  | freeFrame paddr member => exact inv.freeFrame member
  | writePayload ptr assign member only =>
      exact inv.withPool (inv.pool.write member only) (inv.pool.write_stays member only)
  | writeChunk i c member mem only => exact inv.writeChunk member only
  | writeFrame frame member mem only => exact inv.writeFrame member only

end SessionInv

end Steps

section Boot

variable {totalMemoryBytes kernelEnd : Nat}

theorem boot_inv (phys : PhysState) (bound : totalMemoryBytes < 2 ^ 64) (image : 0 < kernelEnd)
    (fits : ImageFits (ramSize totalMemoryBytes) kernelEnd) :
    SessionInv (Session.boot totalMemoryBytes kernelEnd phys)
      (ramSize totalMemoryBytes / pageSize)
      {frame | frame < reservedFrames (ramSize totalMemoryBytes) kernelEnd} := by
  have space := frameSpace_setupPmm phys (ramSize_lt bound) image fits
  constructor
  case pool => exact Zram.reachable_inv space (.init _ Relation.ReflTransGen.refl)
  case slab => exact Slab.reachable_inv space (by decide) Relation.ReflTransGen.refl
  case custody =>
    refine ⟨space, (setupPmm_spec phys (ramSize_lt bound) kernelEnd).2.1, ?_⟩
    exact fun _ held => absurd held (Set.notMem_empty _)
  case heap_offset => rfl
  case slab_offset => rfl
  case slab_heap => exact fun _ _ => Set.notMem_empty _
  case frames_heap => exact fun _ _ => Set.notMem_empty _
  case frames_slab => exact fun _ held => absurd held (Set.notMem_empty _)

theorem Session.Reachable.inv {s : Session} {phys : PhysState}
    (bound : totalMemoryBytes < 2 ^ 64) (image : 0 < kernelEnd)
    (fits : ImageFits (ramSize totalMemoryBytes) kernelEnd)
    (reachable : Session.Reachable totalMemoryBytes kernelEnd phys s) :
    SessionInv s (ramSize totalMemoryBytes / pageSize)
      {frame | frame < reservedFrames (ramSize totalMemoryBytes) kernelEnd} := by
  induction reachable with
  | refl => exact boot_inv phys bound image fits
  | tail _ step inductionHypothesis => exact inductionHypothesis.step step

end Boot

end Kernel
end AuraKernel
