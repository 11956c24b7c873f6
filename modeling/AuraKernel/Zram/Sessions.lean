import AuraKernel.Heap.Clients
import AuraKernel.Zram.Accounting
import AuraKernel.Zram.RoundTrip

namespace AuraKernel
namespace Zram

open Machine
open Physical
open Heap

/-!
# Sessions of the pool

A session is the pool with what the other callers of its heap hold, the frames
of the heap, and the compressed bytes that each live handle stands for.  The
slots own distinct buffers of the heap that no other caller holds.
-/

/-- The pool, the pointers of the other callers, the frames of the heap, and the
compressed bytes behind the live handles. -/
structure Session where
  zram : ZramState
  others : Finset Nat
  taken : Set Nat
  streams : Fin 1024 → Option (List UInt8)

/-- The buffers of the slots that are used. -/
def buffers (pool : Fin 1024 → Slot) : Finset Nat :=
  (Finset.univ.filter fun i => (pool i).used = true).image fun i => (pool i).data

/-- The heap session under the pool. -/
def Session.heapSession (s : Session) : Heap.Session where
  heap := s.zram.heap
  held := s.others ∪ buffers s.zram.pool
  taken := s.taken

/-- The frames of the heap after an operation. -/
def Session.takenAfter (s : Session) (heap : HeapState) : Set Nat :=
  s.taken ∪ {frame | frame < s.zram.heap.phys.pmm.totalFrames ∧
    s.zram.heap.phys.Free frame ∧ heap.phys.Used frame}

/-- The compressed bytes of a page. -/
def streamOf (src : Page) : List UInt8 :=
  match zramCompressPage src.val zramPageSize with
  | some (compLen, tempBuf) => tempBuf.take compLen.toNat
  | none => []

/-- The session after `zram_store(src, out_handle)`. -/
def Session.store (s : Session) (src : Option Page) (code : Int) (outHandle : Option Nat)
    (z : ZramState) : Session where
  zram := z
  others := s.others
  taken := s.takenAfter z.heap
  streams := fun i =>
    if code = 0 ∧ outHandle = some i.val then src.map streamOf else s.streams i

/-- The session after `zram_free(handle)`. -/
def Session.free (s : Session) (handle : Nat) : Session where
  zram := (zramFree handle s.zram).2
  others := s.others
  taken := s.takenAfter (zramFree handle s.zram).2.heap
  streams := fun i =>
    if (zramFree handle s.zram).1 = 0 ∧ handle = i.val then none else s.streams i

/-- The session after a call of another caller of the heap. -/
def Session.call (s : Session) (call : Heap.Call) (result : Nat) (heap : HeapState) : Session where
  zram := { s.zram with heap := heap }
  others := call.handed result s.others
  taken := s.takenAfter heap
  streams := s.streams

inductive Session.Step (reserved : Set Nat) : Session → Session → Prop
  | store {s : Session} (src : Option Page) (outHandle : Option Nat) (code : Int)
      (outHandle' : Option Nat) (z : ZramState)
      (returns : zramStore src outHandle s.zram = some (code, outHandle', z)) :
      Step reserved s (s.store src code outHandle' z)
  | load {s : Session} (handle : Nat) (dst : Option (List UInt8)) (code : Int)
      (dst' : Option (List UInt8)) (z : ZramState)
      (returns : zramLoad handle dst s.zram = some (code, dst', z)) :
      Step reserved s { s with zram := z }
  | free {s : Session} (handle : Nat) : Step reserved s (s.free handle)
  | call {s : Session} (call : Heap.Call) (result : Nat) (heap : HeapState)
      (allowed : call.Allowed s.others) (returns : call.run s.zram.heap = some (result, heap)) :
      Step reserved s (s.call call result heap)
  | write {s : Session} (ptr : Nat) (assign : Mem → Mem) (member : ptr ∈ s.others)
      (only : ∀ place, (place < ptr ∨ ptr + payloadSize s.zram.heap.mem ptr ≤ place) →
        assign s.zram.heap.mem place = s.zram.heap.mem place) :
      Step reserved s { s with zram := { s.zram with heap := s.zram.heap.write assign } }
  | other {s : Session} (phys : PhysState)
      (space : FrameSpace phys s.zram.heap.physOffset reserved)
      (total : phys.pmm.totalFrames = s.zram.heap.phys.pmm.totalFrames)
      (used : ∀ frame ∈ s.taken, phys.Used frame)
      (same : ∀ frame ∈ s.taken, ∀ place,
        s.zram.heap.physOffset + frame * pageSize ≤ place →
        place < s.zram.heap.physOffset + (frame + 1) * pageSize →
        phys.mem place = s.zram.heap.mem place) :
      Step reserved s { s with zram := { s.zram with heap := { s.zram.heap with phys := phys } } }

/-- The session after `zram_init` on top of a heap that others already use. -/
def Session.init (heap : Heap.Session) : Session where
  zram := zramInit heap.heap
  others := heap.held
  taken := heap.taken
  streams := fun _ => none

/-- The sessions that can be reached from `zram_init`. -/
inductive Session.Reachable (reserved : Set Nat) (offset : Nat) (phys : PhysState) : Session → Prop
  | init (heap : Heap.Session) (reachable : Heap.Session.Reachable reserved offset phys heap) :
      Reachable reserved offset phys (Session.init heap)
  | step {s t : Session} : Reachable reserved offset phys s → Session.Step reserved s t →
      Reachable reserved offset phys t

/-! ## The invariant -/

/-- A slot that stands for a list of compressed bytes. -/
structure Stored (mem : Mem) (slot : Slot) (stream : List UInt8) : Prop where
  used : slot.used = true
  length_eq : slot.compressedLen = stream.length
  room : stream.length ≤ payloadSize mem slot.data
  holds : Holds mem slot.data stream
  tokens : ∃ tokens : List Token, (∀ token ∈ tokens, token.WellFormed) ∧ stream = encodeAll tokens

structure SessionInv (s : Session) (reserved : Set Nat) : Prop where
  heap : ∃ layout, Heap.SessionInv s.heapSession reserved layout
  apart : ∀ ptr ∈ s.others, ptr ∉ buffers s.zram.pool
  unused : ∀ i, s.streams i = none → (s.zram.pool i).used = false
  stored : ∀ i stream, s.streams i = some stream → Stored s.zram.heap.mem (s.zram.pool i) stream
  distinct : ∀ i j, (s.zram.pool i).used = true → (s.zram.pool j).used = true →
    (s.zram.pool i).data = (s.zram.pool j).data → i = j
  accounted : Accounted s.zram

section Buffers

variable {pool : Fin 1024 → Slot} {i : Fin 1024} {ptr : Nat}

theorem mem_buffers : ptr ∈ buffers pool ↔ ∃ i, (pool i).used = true ∧ (pool i).data = ptr := by
  unfold buffers
  simp only [Finset.mem_image, Finset.mem_filter, Finset.mem_univ, true_and]

/-- A page stored in an unused slot brings its buffer along. -/
theorem buffers_store (unused : (pool i).used = false) (len : Nat) :
    buffers (Function.update pool i { data := ptr, compressedLen := len, used := true }) =
      insert ptr (buffers pool) := by
  ext q
  rw [Finset.mem_insert, mem_buffers, mem_buffers]
  constructor
  · rintro ⟨j, used, rfl⟩
    by_cases same : j = i
    · subst same
      rw [Function.update_self]
      exact Or.inl rfl
    · rw [Function.update_of_ne same] at used ⊢
      exact Or.inr ⟨j, used, rfl⟩
  · rintro (rfl | ⟨j, used, rfl⟩)
    · exact ⟨i, by rw [Function.update_self], by rw [Function.update_self]⟩
    · have different : j ≠ i := by
        rintro rfl
        rw [unused] at used
        cases used
      exact ⟨j, by rw [Function.update_of_ne different]; exact used,
        by rw [Function.update_of_ne different]⟩

theorem buffers_free (distinct : ∀ i j, (pool i).used = true → (pool j).used = true →
    (pool i).data = (pool j).data → i = j) (used : (pool i).used = true) :
    buffers (Function.update pool i emptySlot) = (buffers pool).erase (pool i).data := by
  ext q
  rw [Finset.mem_erase, mem_buffers, mem_buffers]
  constructor
  · rintro ⟨j, usedJ, rfl⟩
    by_cases same : j = i
    · subst same
      rw [Function.update_self] at usedJ
      cases usedJ
    · rw [Function.update_of_ne same] at usedJ ⊢
      exact ⟨fun equal => same (distinct j i usedJ used equal), j, usedJ, rfl⟩
  · rintro ⟨different, j, usedJ, rfl⟩
    have notI : j ≠ i := fun same => different (by rw [same])
    exact ⟨j, by rw [Function.update_of_ne notI]; exact usedJ,
      by rw [Function.update_of_ne notI]⟩

end Buffers

section Steps

variable {s : Session} {reserved : Set Nat}

/-- A slot does not notice what happens outside its buffer. -/
theorem Stored.congr {mem mem' : Mem} {slot : Slot} {stream : List UInt8}
    (stored : Stored mem slot stream)
    (size : payloadSize mem' slot.data = payloadSize mem slot.data)
    (same : ∀ place, slot.data ≤ place → place < slot.data + payloadSize mem slot.data →
      mem' place = mem place) : Stored mem' slot stream where
  used := stored.used
  length_eq := stored.length_eq
  room := by
    rw [size]
    exact stored.room
  holds := stored.holds.congr fun place low high =>
    same place low (Nat.lt_of_lt_of_le high (Nat.add_le_add_left stored.room _))
  tokens := stored.tokens

theorem SessionInv.null_not_buffer (inv : SessionInv s reserved) : 0 ∉ buffers s.zram.pool := by
  intro isBuffer
  rcases inv.heap with ⟨layout, heap⟩
  have held : 0 ∈ s.heapSession.held := Finset.mem_union_right _ isBuffer
  rw [heap.held] at held
  exact Layout.zero_not_mem_pointers _ held

theorem SessionInv.buffer_mem (inv : SessionInv s reserved) {i : Fin 1024} {stream : List UInt8}
    (live : s.streams i = some stream) : (s.zram.pool i).data ∈ buffers s.zram.pool :=
  mem_buffers.mpr ⟨i, (inv.stored i stream live).used, rfl⟩

/-- Nothing taken, nothing noted. -/
theorem takenAfter_same (s : Session) : s.takenAfter s.zram.heap = s.taken := by
  unfold Session.takenAfter
  refine Set.union_eq_self_of_subset_right ?_
  rintro frame ⟨_, free, used⟩
  exact absurd used ((PhysState.not_used_iff _ _).mpr free)

/-- An operation that leaves the pool as it is. -/
theorem SessionInv.same_pool (inv : SessionInv s reserved) {heap : HeapState} {others : Finset Nat}
    {taken : Set Nat} {stats : Stats}
    (heapInv : ∃ layout,
      Heap.SessionInv ⟨heap, others ∪ buffers s.zram.pool, taken⟩ reserved layout)
    (apart : ∀ ptr ∈ others, ptr ∉ buffers s.zram.pool)
    (keeps : ∀ ptr ∈ buffers s.zram.pool,
      payloadSize heap.mem ptr = payloadSize s.zram.heap.mem ptr ∧
        ∀ place, ptr ≤ place → place < ptr + payloadSize s.zram.heap.mem ptr →
          heap.mem place = s.zram.heap.mem place)
    (accounted : Accounted ⟨heap, s.zram.pool, stats⟩) :
    SessionInv ⟨⟨heap, s.zram.pool, stats⟩, others, taken, s.streams⟩ reserved where
  heap := heapInv
  apart := apart
  unused := inv.unused
  stored := fun i stream live =>
    (inv.stored i stream live).congr (keeps _ (inv.buffer_mem live)).1
      (keeps _ (inv.buffer_mem live)).2
  distinct := inv.distinct
  accounted := accounted

/-- The accounting does not look at the heap and the lifetime totals. -/
theorem Accounted.congr {z : ZramState} (accounted : Accounted z) (heap : HeapState)
    (totalCompressions totalDecompressions : Nat) :
    Accounted
      { heap := heap
        pool := z.pool
        stats := { z.stats with
          totalCompressions := totalCompressions
          totalDecompressions := totalDecompressions } } where
  pages := accounted.pages
  original := accounted.original
  compressed := accounted.compressed
  lengths := accounted.lengths
  ratio := accounted.ratio

theorem SessionInv.call (inv : SessionInv s reserved) {call : Heap.Call} {result : Nat}
    {heap : HeapState} (allowed : call.Allowed s.others)
    (returns : call.run s.zram.heap = some (result, heap)) :
    SessionInv (s.call call result heap) reserved := by
  rcases inv.heap with ⟨layout, heapInv⟩
  have allowedAll : call.Allowed s.heapSession.held := allowed.union_left _
  rcases heapInv.call_returned allowedAll returns with ⟨after, heapInv', keeps⟩
  have heldEq : call.handed result s.heapSession.held =
      call.handed result s.others ∪ buffers s.zram.pool :=
    handed_union allowed inv.apart inv.null_not_buffer
  refine inv.same_pool ⟨after, ?_⟩ ?_ ?_ (inv.accounted.congr _ _ _)
  · rw [← heldEq]
    exact heapInv'
  · exact handed_apart allowed inv.apart (heapInv.call_fresh allowedAll returns)
  · intro ptr isBuffer
    refine keeps ptr (Finset.mem_union_right _ isBuffer) ?_
    simp only [Heap.Session.after]
    rw [heldEq]
    exact Finset.mem_union_right _ isBuffer

theorem SessionInv.write (inv : SessionInv s reserved) {ptr : Nat} {assign : Mem → Mem}
    (member : ptr ∈ s.others)
    (only : ∀ place, (place < ptr ∨ ptr + payloadSize s.zram.heap.mem ptr ≤ place) →
      assign s.zram.heap.mem place = s.zram.heap.mem place) :
    SessionInv { s with zram := { s.zram with heap := s.zram.heap.write assign } } reserved := by
  rcases inv.heap with ⟨layout, heapInv⟩
  have held : ptr ∈ s.heapSession.held := Finset.mem_union_left _ member
  have keeps := (heapInv.write_keeps held only).1
  refine inv.same_pool ⟨layout, heapInv.write held only⟩ inv.apart ?_ (inv.accounted.congr _ _ _)
  intro q isBuffer
  have kept := keeps q (Finset.mem_union_right _ isBuffer)
  exact ⟨kept.1, kept.2 fun same => inv.apart ptr member (same ▸ isBuffer)⟩

theorem SessionInv.other (inv : SessionInv s reserved) {phys : PhysState}
    (space : FrameSpace phys s.zram.heap.physOffset reserved)
    (total : phys.pmm.totalFrames = s.zram.heap.phys.pmm.totalFrames)
    (used : ∀ frame ∈ s.taken, phys.Used frame)
    (same : ∀ frame ∈ s.taken, ∀ place, s.zram.heap.physOffset + frame * pageSize ≤ place →
      place < s.zram.heap.physOffset + (frame + 1) * pageSize →
      phys.mem place = s.zram.heap.mem place) :
    SessionInv { s with zram := { s.zram with heap := { s.zram.heap with phys := phys } } }
      reserved := by
  rcases inv.heap with ⟨layout, heapInv⟩
  refine inv.same_pool ⟨layout, heapInv.other space total used same⟩ inv.apart ?_
    (inv.accounted.congr _ _ _)
  exact fun q isBuffer => heapInv.other_keeps same (Finset.mem_union_right _ isBuffer)

end Steps

end Zram
end AuraKernel
