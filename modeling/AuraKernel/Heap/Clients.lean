import AuraKernel.Heap.Runs
import AuraKernel.Machine.Bytes
import AuraKernel.Physical.Confined

namespace AuraKernel
namespace Heap

open Machine
open Physical

/-!
# Clients of the heap

What a component that keeps its data in heap payloads relies on: its payloads
survive the writes of the other callers, the calls of the other callers, and
whatever the rest of the kernel does outside the frames of the heap.  In turn
the calls spare everything outside these frames.
-/

/-- What a call leaves alone: the frames outside `taken`, and their memory except
for the bitmap. -/
structure Spares (s s' : HeapState) (taken : Set Nat) : Prop where
  physOffset_eq : s'.physOffset = s.physOffset
  bitmap_eq : s'.phys.pmm.bitmap = s.phys.pmm.bitmap
  total_eq : s'.phys.pmm.totalFrames = s.phys.pmm.totalFrames
  used_iff : ∀ frame, frame < s.phys.pmm.totalFrames →
    (s'.phys.Used frame ↔ s.phys.Used frame ∨ frame ∈ taken)
  outside_eq : ∀ place, place ∉ s.phys.bitmapBytes →
    (∀ frame ∈ taken, place < s.physOffset + frame * pageSize ∨
      s.physOffset + (frame + 1) * pageSize ≤ place) → s'.mem place = s.mem place

section Clients

variable {session : Session} {reserved : Set Nat} {layout : Layout} {held others : Finset Nat}

theorem Call.Allowed.union_left {call : Call} (allowed : call.Allowed others) (own : Finset Nat) :
    call.Allowed (others ∪ own) := by
  cases call with
  | kmalloc size => trivial
  | kfree ptr => exact allowed.imp_right fun member => Finset.mem_union_left _ member
  | krealloc ptr size => exact allowed.imp_right fun member => Finset.mem_union_left _ member

/-- The result of a call that allocates was not held. -/
def Call.Fresh (result : Nat) (held : Finset Nat) : Call → Prop
  | kmalloc _ => result ≠ 0 → result ∉ held
  | kfree _ => True
  | krealloc ptr _ => result ≠ 0 → result ∉ held.erase ptr

theorem SessionInv.kmalloc_fresh (inv : SessionInv session reserved layout) {size result : Nat}
    {heap : HeapState} (returns : Heap.kmalloc size session.heap = some (result, heap))
    (nonzero : result ≠ 0) : result ∉ session.held := by
  rcases inv.kmalloc_returned returns with ⟨_, _, _, _, granted⟩
  exact (granted nonzero).1

theorem SessionInv.call_fresh (inv : SessionInv session reserved layout) {call : Call}
    (allowed : call.Allowed session.held) {result : Nat} {heap : HeapState}
    (returns : call.run session.heap = some (result, heap)) : call.Fresh result session.held := by
  cases call with
  | kmalloc size => exact inv.kmalloc_fresh returns
  | kfree ptr => trivial
  | krealloc ptr size =>
      intro nonzero inHeld
      by_cases null : ptr = 0
      · subst null
        exact inv.kmalloc_fresh returns nonzero (Finset.mem_of_mem_erase inHeld)
      have member := allowed.resolve_left null
      rw [inv.held, Layout.mem_pointers] at member
      rcases member with ⟨blk, live, rfl⟩
      by_cases empty : size = 0
      · simp only [Call.run, krealloc, if_neg null, if_pos empty] at returns
        exact nonzero (congrArg Prod.fst (Option.some.inj returns)).symm
      · rcases inv.heap.krealloc_spec live empty with ⟨ptr, heap', _, returned, _, _, moved, _⟩
        cases returned.symm.trans returns
        rw [Finset.mem_erase, inv.held, Layout.mem_pointers] at inHeld
        cases moved with
        | failed _ => exact nonzero rfl
        | stayed _ _ _ => exact inHeld.1 rfl
        | moved b fresh _ _ _ =>
            rcases inHeld.2 with ⟨c, live', equal⟩
            exact fresh (Nat.add_right_cancel equal ▸ live')

/-- A heap operation spares what is outside the frames of the heap afterwards. -/
theorem HeapEffect.spares {s s' : HeapState} {before after : Layout} {kept : Finset Nat}
    (effect : HeapEffect s s' before after kept) (inv : HeapInv s reserved before)
    (inv' : HeapInv s' reserved after) : Spares s s' (after.frames s.physOffset) where
  physOffset_eq := effect.physOffset_eq
  bitmap_eq := effect.bitmap_eq
  total_eq := effect.total_eq
  used_iff := fun frame bound => by
    rw [effect.used_iff frame bound]
    constructor
    · exact Or.imp_right And.left
    · rintro (used | inAfter)
      · exact Or.inl used
      · by_cases inBefore : frame ∈ before.frames s.physOffset
        · exact Or.inl (inv.frames_owned inBefore).1
        · exact Or.inr ⟨inAfter, inBefore⟩
  outside_eq := fun place notBitmap away => by
    refine effect.outside_eq place notBitmap fun r rMem => ?_
    by_contra inside
    rcases inv'.runs r rMem with ⟨first, count, shape, _⟩
    have inRun : s.physOffset + first * pageSize ≤ place ∧
        place < s.physOffset + (first + count) * pageSize := by
      rw [effect.physOffset_eq] at shape
      rw [shape] at inside
      simp only [frameRegion] at inside
      omega
    rcases frame_of_place inRun with ⟨frame, low, high, within, within'⟩
    have inAfter : frame ∈ after.frames s.physOffset := by
      refine ⟨r, rMem, ?_⟩
      rw [shape, effect.physOffset_eq]
      simp only [frameRegion]
      have lower := Nat.mul_le_mul_right pageSize low
      have upper := Nat.mul_lt_mul_of_pos_right high (by decide : 0 < pageSize)
      omega
    rcases away frame inAfter with less | greater <;> omega

/-- A call spares what is outside the frames of the heap afterwards. -/
theorem SessionInv.call_spares (inv : SessionInv session reserved layout) {call : Call}
    (allowed : call.Allowed session.held) {result : Nat} {heap : HeapState}
    (returns : call.run session.heap = some (result, heap)) :
    Spares session.heap heap (session.after call result heap).taken := by
  rcases inv with ⟨heapInv, held, taken, merged⟩
  rw [held] at allowed
  rcases heapInv.call_performs call allowed with ⟨result', heap', after, returned, performs⟩
  cases returned.symm.trans returns
  simp only [Session.after]
  rw [taken, performs.effect.frames_eq performs.inv]
  exact performs.effect.spares heapInv performs.inv

/-- A caller's write to its payload spares what is outside the frames of the heap. -/
theorem SessionInv.write_spares (inv : SessionInv session reserved layout) {ptr : Nat}
    {assign : Mem → Mem} (member : ptr ∈ session.held)
    (only : ∀ place, (place < ptr ∨ ptr + payloadSize session.heap.mem ptr ≤ place) →
      assign session.heap.mem place = session.heap.mem place) :
    Spares session.heap (session.heap.write assign) session.taken := by
  rcases inv with ⟨heapInv, held, taken, merged⟩
  rw [held] at member
  rcases Layout.mem_pointers.mp member with ⟨b, live, rfl⟩
  rw [payloadSize_add] at only
  rcases heapInv.writePayload (mem_usedBlocks.mp live).1 only with ⟨inv', effect, _, _⟩
  rw [taken]
  exact effect.spares heapInv inv'

/-- What two operations spare one after the other. -/
theorem Spares.trans {s s' s'' : HeapState} {taken taken' : Set Nat} (first : Spares s s' taken)
    (second : Spares s' s'' taken') (grows : taken ⊆ taken') : Spares s s'' taken' where
  physOffset_eq := second.physOffset_eq.trans first.physOffset_eq
  bitmap_eq := second.bitmap_eq.trans first.bitmap_eq
  total_eq := second.total_eq.trans first.total_eq
  used_iff := fun frame bound => by
    have bound' : frame < s'.phys.pmm.totalFrames := first.total_eq.symm ▸ bound
    rw [second.used_iff frame bound', first.used_iff frame bound, or_assoc]
    exact or_congr_right (or_iff_right_of_imp fun member => grows member)
  outside_eq := fun place notBitmap away => by
    have sameBitmap : s'.phys.bitmapBytes = s.phys.bitmapBytes := by
      unfold PhysState.bitmapBytes
      rw [first.bitmap_eq, first.total_eq]
    have kept := second.outside_eq place (by rw [sameBitmap]; exact notBitmap)
    rw [first.physOffset_eq] at kept
    exact (kept away).trans
      (first.outside_eq place notBitmap fun frame member => away frame (grows member))

theorem Spares.confined {s s' : HeapState} {own own' : Set Nat} (spares : Spares s s' own')
    (newFree : ∀ frame ∈ own', frame ∈ own ∨ s.phys.Free frame) :
    Confined s.physOffset s.phys s'.phys own own' where
  total_eq := spares.total_eq
  new_free := newFree
  used_keeps := fun frame bound used _ => (spares.used_iff frame bound).mpr (Or.inl used)
  mem_eq := fun place notBitmap away =>
    spares.outside_eq place notBitmap fun frame member => away frame (Or.inr member)

/-- The calls of some callers leave the pointers of the others alone. -/
theorem handed_union {own : Finset Nat} {call : Call} {result : Nat}
    (allowed : call.Allowed others) (apart : ∀ ptr ∈ others, ptr ∉ own) (null : 0 ∉ own) :
    call.handed result (others ∪ own) = call.handed result others ∪ own := by
  have spared : ∀ ptr, (ptr = 0 ∨ ptr ∈ others) →
      (others ∪ own).erase ptr = others.erase ptr ∪ own := by
    intro ptr allowed
    have notOwn : ptr ∉ own := by
      rcases allowed with rfl | member
      · exact null
      · exact apart ptr member
    rw [Finset.erase_union_distrib, Finset.erase_eq_of_notMem notOwn]
  cases call with
  | kmalloc size =>
      unfold Call.handed
      dsimp only
      split
      · rfl
      · exact (Finset.insert_union _ _ _).symm
  | kfree ptr => exact spared ptr allowed
  | krealloc ptr size =>
      unfold Call.handed
      dsimp only
      rw [spared ptr allowed]
      split
      · split <;> rfl
      · exact (Finset.insert_union _ _ _).symm

/-- After their calls the callers still hold none of the other pointers. -/
theorem handed_apart {own : Finset Nat} {call : Call} {result : Nat}
    (allowed : call.Allowed others) (apart : ∀ ptr ∈ others, ptr ∉ own)
    (fresh : call.Fresh result (others ∪ own)) : ∀ ptr ∈ call.handed result others, ptr ∉ own := by
  cases call with
  | kmalloc size =>
      unfold Call.handed
      dsimp only
      split
      · exact apart
      · rename_i nonzero
        intro ptr member inOwn
        rcases Finset.mem_insert.mp member with rfl | old
        · exact fresh nonzero (Finset.mem_union_right _ inOwn)
        · exact apart ptr old inOwn
  | kfree ptr => exact fun other member => apart other (Finset.mem_of_mem_erase member)
  | krealloc ptr size =>
      unfold Call.handed
      dsimp only
      split
      · split
        · exact fun other member => apart other (Finset.mem_of_mem_erase member)
        · exact apart
      · rename_i nonzero
        intro other member inOwn
        rcases Finset.mem_insert.mp member with rfl | old
        · refine fresh nonzero (Finset.mem_erase.mpr ⟨?_, Finset.mem_union_right _ inOwn⟩)
          rintro rfl
          rcases allowed with null | inOthers
          · exact nonzero null
          · exact apart _ inOthers inOwn
        · exact apart other (Finset.mem_of_mem_erase old) inOwn

/-- A caller's write to its payload leaves the other payloads and all sizes alone,
and it touches no byte of the bitmap. -/
theorem SessionInv.write_keeps (inv : SessionInv session reserved layout) {ptr : Nat}
    {assign : Mem → Mem} (member : ptr ∈ session.held)
    (only : ∀ place, (place < ptr ∨ ptr + payloadSize session.heap.mem ptr ≤ place) →
      assign session.heap.mem place = session.heap.mem place) :
    (∀ q ∈ session.held, payloadSize (assign session.heap.mem) q = payloadSize session.heap.mem q ∧
      (q ≠ ptr → ∀ place, q ≤ place → place < q + payloadSize session.heap.mem q →
        assign session.heap.mem place = session.heap.mem place)) ∧
      ∀ frame, frame < session.heap.phys.pmm.totalFrames →
        ((session.heap.write assign).phys.Used frame ↔ session.heap.phys.Used frame) := by
  rcases inv with ⟨heapInv, held, taken, merged⟩
  rw [held] at member ⊢
  constructor
  · intro q qMem
    constructor
    · rcases Layout.mem_pointers.mp member with ⟨b, live, rfl⟩
      rcases Layout.mem_pointers.mp qMem with ⟨c, live', rfl⟩
      rw [payloadSize_add] at only
      rw [payloadSize_add, payloadSize_add]
      rcases heapInv.writePayload (mem_usedBlocks.mp live).1 only with ⟨_, _, tags, _⟩
      exact congrArg Tag.size (tags c (mem_usedBlocks.mp live').1)
    · intro different place low high
      refine only place ?_
      rcases heapInv.payloads_apart qMem member different with before | behind <;> omega
  · rcases Layout.mem_pointers.mp member with ⟨b, live, rfl⟩
    rw [payloadSize_add] at only
    rcases heapInv.writePayload (mem_usedBlocks.mp live).1 only with ⟨_, effect, _, _⟩
    intro frame bound
    rw [effect.used_iff frame bound]
    exact or_iff_left fun new => new.2 new.1

/-- A write behind a call that changes no bit of the bitmap only changes the memory. -/
theorem Session.after_write (session : Session) (call : Call) (result : Nat) {heap : HeapState}
    {assign : Mem → Mem}
    (sameUsed : ∀ frame, frame < session.heap.phys.pmm.totalFrames →
      ((heap.write assign).phys.Used frame ↔ heap.phys.Used frame)) :
    session.after call result (heap.write assign) =
      { session.after call result heap with heap := heap.write assign } := by
  unfold Session.after
  congr 2
  ext frame
  exact and_congr_right fun bound => and_congr_right fun _ => sameUsed frame bound

/-- A string is copied to a new payload: the frames taken are those of the call,
and the rest is spared. -/
theorem SessionInv.copy_after (inv : SessionInv session reserved layout) {bytes : List UInt8}
    (short : bytes.length + 7 < 2 ^ 64) {ptr : Nat} {heap : HeapState}
    (granted : Heap.kmalloc bytes.length session.heap = some (ptr, heap)) (nonzero : ptr ≠ 0) :
    session.after (.kmalloc bytes.length) ptr (heap.write fun mem => writeBytes mem ptr bytes) =
        { session.after (.kmalloc bytes.length) ptr heap with
          heap := heap.write fun mem => writeBytes mem ptr bytes } ∧
      Spares session.heap (heap.write fun mem => writeBytes mem ptr bytes)
        (session.after (.kmalloc bytes.length) ptr heap).taken := by
  rcases inv.kmalloc_returned granted with ⟨after, inv', _, _, fresh⟩
  have room : bytes.length ≤ payloadSize heap.mem ptr :=
    Nat.le_trans (@le_alignUp 3 _ (by decide) short).1 (fresh nonzero).2
  have member : ptr ∈ (session.after (.kmalloc bytes.length) ptr heap).held :=
    session.mem_after_kmalloc heap nonzero
  have only : ∀ place, (place < ptr ∨ ptr + payloadSize heap.mem ptr ≤ place) →
      (fun mem => writeBytes mem ptr bytes) heap.mem place = heap.mem place :=
    fun place outside => writeBytes_of_outside (by omega)
  have called := @SessionInv.call_spares _ _ _ inv (.kmalloc bytes.length) trivial _ _ granted
  have written := @SessionInv.write_spares _ _ _ inv' ptr
    (fun mem => writeBytes mem ptr bytes) member only
  have sameUsed := (@SessionInv.write_keeps _ _ _ inv' ptr
    (fun mem => writeBytes mem ptr bytes) member only).2
  refine ⟨session.after_write _ _ fun frame bound => ?_, called.trans written (Set.Subset.refl _)⟩
  exact sameUsed frame (called.total_eq.symm ▸ bound)

/-- A string is copied to a new payload; the older payloads do not notice. -/
theorem SessionInv.kmalloc_write (inv : SessionInv session reserved layout) {bytes : List UInt8}
    (short : bytes.length + 7 < 2 ^ 64) {ptr : Nat} {heap heap' : HeapState}
    (granted : Heap.kmalloc bytes.length session.heap = some (ptr, heap)) (nonzero : ptr ≠ 0)
    (written : heap' = heap.write fun mem => writeBytes mem ptr bytes) :
    ptr ∉ session.held ∧ bytes.length ≤ payloadSize heap'.mem ptr ∧ Holds heap'.mem ptr bytes ∧
      (∃ after, SessionInv (session.after (.kmalloc bytes.length) ptr heap') reserved after) ∧
      ∀ q ∈ session.held, payloadSize heap'.mem q = payloadSize session.heap.mem q ∧
        ∀ place, q ≤ place → place < q + payloadSize session.heap.mem q →
          heap'.mem place = session.heap.mem place := by
  subst written
  rcases inv.kmalloc_returned granted with ⟨after, inv', keeps, _, fresh⟩
  rcases fresh nonzero with ⟨notHeld, fits⟩
  have room : bytes.length ≤ payloadSize heap.mem ptr :=
    Nat.le_trans (@le_alignUp 3 _ (by decide) short).1 fits
  have member : ptr ∈ (session.after (.kmalloc bytes.length) ptr heap).held :=
    session.mem_after_kmalloc heap nonzero
  have only : ∀ place, (place < ptr ∨ ptr + payloadSize heap.mem ptr ≤ place) →
      (fun mem => writeBytes mem ptr bytes) heap.mem place = heap.mem place :=
    fun place outside => writeBytes_of_outside (by omega)
  have writtenInv := @SessionInv.write _ _ _ inv' ptr (fun mem => writeBytes mem ptr bytes)
    member only
  have writeKeeps := @SessionInv.write_keeps _ _ _ inv' ptr (fun mem => writeBytes mem ptr bytes)
    member only
  refine ⟨notHeld, ?_, holds_writeBytes _ _ _, ⟨after, ?_⟩, ?_⟩
  · exact Nat.le_trans room (Nat.le_of_eq (writeKeeps.1 ptr member).1.symm)
  · rw [(inv.copy_after short granted nonzero).1]
    exact writtenInv
  · intro q held
    -- first the call and then the copy leaves an older payload alone
    have heldToo : q ∈ (session.after (.kmalloc bytes.length) ptr heap).held := by
      rw [session.held_after_kmalloc heap nonzero]
      exact Finset.mem_insert_of_mem held
    have called := keeps q held heldToo
    have copied := writeKeeps.1 q heldToo
    have different : q ≠ ptr := fun equal => notHeld (equal ▸ held)
    refine ⟨copied.1.trans called.1, fun place low high => ?_⟩
    exact (copied.2 different place low (by rw [called.1]; exact high)).trans
      (called.2 place low high)

/-- What the rest of the kernel does leaves the payloads and their sizes alone. -/
theorem SessionInv.other_keeps (inv : SessionInv session reserved layout) {phys : PhysState}
    (same : ∀ frame ∈ session.taken, ∀ place,
      session.heap.physOffset + frame * pageSize ≤ place →
      place < session.heap.physOffset + (frame + 1) * pageSize →
      phys.mem place = session.heap.mem place) {q : Nat} (member : q ∈ session.held) :
    payloadSize phys.mem q = payloadSize session.heap.mem q ∧
      ∀ place, q ≤ place → place < q + payloadSize session.heap.mem q →
        phys.mem place = session.heap.mem place := by
  rcases inv with ⟨heapInv, held, taken, merged⟩
  rw [held] at member
  rw [taken] at same
  rcases Layout.mem_pointers.mp member with ⟨b, live, rfl⟩
  have block := (mem_usedBlocks.mp live).1
  have inside : ∀ place, b ≤ place → place < b + headerSize + Block.size session.heap.mem b →
      phys.mem place = session.heap.mem place := by
    intro place low high
    rcases heapInv.block_frame block low high with ⟨frame, inHeap, within, within'⟩
    exact same frame inHeap place within within'
  rw [payloadSize_add, payloadSize_add]
  refine ⟨?_, fun place low high => inside place (by omega) high⟩
  exact congrArg Tag.size (header_congr fun place low high => inside place low (by omega)).1

end Clients

end Heap
end AuraKernel
