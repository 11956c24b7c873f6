import AuraKernel.Heap.Clients
import AuraKernel.Heap.Requests

namespace AuraKernel
namespace Heap

open Machine
open Physical

/-!
# Room behind a pointer

A caller of `kmalloc`, `krealloc` or `kmalloc_aligned` relies on the bytes it
asked for.  It gets them unless the size was rounded or padded beyond 64 bits,
and for each of the three functions the sizes where that goes wrong are
determined here.
-/

/-- `size` bytes from `ptr` on lie in one of the payloads that are held. -/
def Session.HasRoom (session : Session) (ptr size : Nat) : Prop :=
  ∃ q ∈ session.held, q ≤ ptr ∧ ptr + size ≤ q + payloadSize session.heap.mem q

/-- What an allocation owes for a pointer: it is NULL, or the heap is well-formed and
there is room behind the pointer. -/
def Roomy (after : Session) (ptr size : Nat) : Prop :=
  ptr ≠ 0 → (∃ layout, WellFormed after layout) ∧ after.HasRoom ptr size

/-- The pointer that `kmalloc_aligned` has stored in front of the one it returned. -/
def rawOf (mem : Mem) (ptr : Nat) : Nat := mem.load64 (sub64 ptr 8)

/-- The session after `kmalloc_aligned`: the block that is held is the one behind
the stored pointer. -/
def Session.afterAligned (session : Session) (size align ptr : Nat) (heap : HeapState) : Session :=
  session.after (.kmalloc (paddedSize size align))
    (if ptr = 0 then 0 else rawOf heap.mem ptr) heap

def KmallocRoomy (session : Session) (size : Nat) : Prop :=
  ∀ ptr heap, Heap.kmalloc size session.heap = some (ptr, heap) →
    Roomy (session.after (.kmalloc size) ptr heap) ptr size

def KreallocRoomy (session : Session) (old size : Nat) : Prop :=
  ∀ ptr heap, Heap.krealloc old size session.heap = some (ptr, heap) →
    Roomy (session.after (.krealloc old size) ptr heap) ptr size

def AlignedRoomy (session : Session) (size align : Nat) : Prop :=
  ∀ ptr heap, Heap.kmallocAligned size align session.heap = some (ptr, heap) →
    Roomy (session.afterAligned size align ptr heap) ptr size

/-- The computations of `kmalloc` for a size have the values they stand for. -/
structure Unwrapped (size : Nat) : Prop where
  round : alignUp size 8 = rounded size
  pages : growPages (alignUp size 8) = pagesFor size

/-- `kmalloc` returns NULL: nothing is asked for, the request cannot be served, or
its rounded size has become 0 and the free list is empty. -/
def Refused (s : HeapState) (layout : Layout) (size : Nat) : Prop :=
  size = 0 ∨ (size ≤ 2 ^ 64 - 8 ∧ ¬ Servable s layout size) ∨
    (2 ^ 64 - 8 < size ∧ layout.nodes = [])

/-! ## The arithmetic -/

theorem unwrapped_iff {size : Nat} (bound : size < 2 ^ 64) :
    Unwrapped size ↔ rounded size + headerSize + (pageSize - 1) < 2 ^ 64 := by
  constructor
  · rintro ⟨round, pages⟩
    rw [round] at pages
    have small : rounded size < 2 ^ 64 := by
      rw [← round]
      exact alignUp_lt size 8
    unfold growPages pagesFor headerSize pageSize wrap64 at *
    omega
  · intro fits
    have small : size ≤ 2 ^ 64 - 8 := by
      unfold rounded headerSize pageSize at fits
      omega
    refine ⟨alignUp_eq_rounded small, ?_⟩
    rw [alignUp_eq_rounded small]
    unfold growPages pagesFor headerSize pageSize wrap64 at *
    omega

theorem paddedSize_eq {size align : Nat} (fits : size + align + headerSize + 8 < 2 ^ 64) :
    paddedSize size align = size + align + headerSize + 8 := by
  unfold paddedSize
  rw [wrap64_of_lt (show size + align < 2 ^ 64 by omega),
    wrap64_of_lt (show size + align + headerSize < 2 ^ 64 by omega), wrap64_of_lt fits]

theorem paddedSize_iff {size align : Nat} :
    paddedSize size align = size + align + headerSize + 8 ↔
      size + align + headerSize + 8 < 2 ^ 64 := by
  constructor
  · intro same
    rw [← same]
    exact wrap64_lt _
  · exact paddedSize_eq

section Bounds

variable {session : Session} {reserved : Set Nat} {layout : Layout} {size ptr : Nat}

/-! ## How much room there can be -/

/-- In a well-formed heap there is room only where there are frames. -/
theorem WellFormed.room_le (wellFormed : WellFormed session layout) {total : Nat}
    (taken : ∀ frame ∈ session.taken, frame < total) (room : session.HasRoom ptr size) :
    ptr + size ≤ session.heap.physOffset + total * pageSize := by
  rcases room with ⟨q, held, _, fits⟩
  rcases (wellFormed.held_iff q).mp held with ⟨b, member, _, rfl⟩
  rw [payloadSize_add] at fits
  rcases wellFormed.covered b member with ⟨r, rMem, _, stop⟩
  rcases wellFormed.runs r rMem with ⟨first, count, positive, rfl⟩
  have last : first + count - 1 ∈ session.taken := by
    rw [wellFormed.taken_eq]
    refine ⟨_, rMem, ?_⟩
    simp only [frameRegion]
    unfold pageSize
    omega
  have bound := taken _ last
  simp only [frameRegion] at stop
  unfold pageSize at stop ⊢
  omega

theorem SessionInv.taken_lt (inv : SessionInv session reserved layout) :
    ∀ frame ∈ session.taken, frame < session.heap.phys.pmm.totalFrames := by
  rw [inv.taken]
  exact fun frame inHeap => (inv.heap.frames_owned inHeap).2.2

theorem SessionInv.taken_after_lt (inv : SessionInv session reserved layout) (call : Call)
    (result : Nat) (heap : HeapState) :
    ∀ frame ∈ (session.after call result heap).taken,
      frame < session.heap.phys.pmm.totalFrames := by
  rintro frame (old | new)
  · exact inv.taken_lt frame old
  · exact new.1

/-- Nothing that reaches beyond the frames has room. -/
theorem SessionInv.not_roomy (inv : SessionInv session reserved layout) {call : Call}
    {result : Nat} {heap : HeapState} (offset : heap.physOffset = session.heap.physOffset)
    (nonzero : ptr ≠ 0)
    (beyond : session.heap.physOffset + session.heap.phys.pmm.totalFrames * pageSize <
      ptr + size) : ¬ Roomy (session.after call result heap) ptr size := by
  intro roomy
  rcases roomy nonzero with ⟨⟨after, wellFormed⟩, room⟩
  have fits := wellFormed.room_le (inv.taken_after_lt call result heap) room
  have same : (session.after call result heap).heap.physOffset = session.heap.physOffset := offset
  rw [same] at fits
  omega

/-! ## kmalloc -/

theorem HeapInv.freeHead_eq_zero_iff {s : HeapState} (inv : HeapInv s reserved layout) :
    s.freeHead = 0 ↔ layout.nodes = [] := by
  have linked := inv.freeList.linked
  cases shape : layout.nodes with
  | nil =>
      rw [shape] at linked
      exact iff_of_true linked rfl
  | cons node rest =>
      rw [shape] at linked
      rcases linked with ⟨starts, nonzero, _⟩
      exact iff_of_false (starts ▸ nonzero) (List.cons_ne_nil _ _)

/-- What the head of the free list serves is not refused. -/
theorem not_refused_of_fits {s : HeapState} (positive : size ≠ 0) {cur : Nat}
    (member : cur ∈ layout.nodes) (fits : alignUp size 8 ≤ Block.size s.mem cur) :
    ¬ Refused s layout size := by
  rintro (null | ⟨small, refused⟩ | ⟨_, empty⟩)
  · exact positive null
  · exact refused (Or.inl ⟨cur, member, alignUp_eq_rounded small ▸ fits⟩)
  · rw [empty] at member
    exact absurd member List.not_mem_nil

/-- Where no block is large enough, a request that wraps around is refused. -/
theorem HeapInv.refused_of_large {s : HeapState} (inv : HeapInv s reserved layout)
    (bound : size < 2 ^ 64) (large : 2 ^ 64 - headerSize < size)
    (tooSmall : ∀ b ∈ layout.nodes, Block.size s.mem b < alignUp size 8) :
    Refused s layout size := by
  by_cases nearly : size ≤ 2 ^ 64 - 8
  · exact Or.inr (Or.inl ⟨nearly, inv.not_servable_of_large bound large⟩)
  · rw [alignUp_eq_zero (by omega) bound] at tooSmall
    refine Or.inr (Or.inr ⟨by omega, List.eq_nil_iff_forall_not_mem.mpr fun b node => ?_⟩)
    exact absurd (tooSmall b node) (Nat.not_lt_zero _)

/-- `kmalloc` returns NULL in exactly these cases. -/
theorem HeapInv.kmalloc_null_iff {s : HeapState} (inv : HeapInv s reserved layout)
    (bound : size < 2 ^ 64) :
    (∃ s', Heap.kmalloc size s = some (0, s')) ↔ Refused s layout size := by
  by_cases empty : size = 0
  · rw [empty]
    exact iff_of_true ⟨s, kmallocLoop_zero _ s⟩ (Or.inl rfl)
  cases inv.round (alignUp size 8) with
  | found cur member search fits =>
      refine iff_of_false ?_ (not_refused_of_fits empty member fits)
      rintro ⟨s', failed⟩
      exact not_null (inv.kmalloc_found empty member search).2 s' failed
  | refused tooSmall search failed none =>
      refine iff_of_true ⟨s, kmallocLoop_refused empty search failed⟩ ?_
      by_cases small : size ≤ 2 ^ 64 - headerSize
      · refine Or.inr (Or.inl ⟨?_, inv.not_servable_of_refused empty small tooSmall none⟩)
        unfold headerSize at small
        omega
      · exact inv.refused_of_large bound (Nat.lt_of_not_le small) tooSmall
  | grown tooSmall search middle between grows =>
      by_cases small : size ≤ 2 ^ 64 - headerSize
      · -- the retry is served, and there was a run for it
        rcases growPages_cases small with ⟨pages, fits⟩ | ⟨noPages, _⟩
        · rcases grows.kmalloc empty search (alignUp_pos empty small).2 fits with
            ⟨cur, s', returned, _⟩
          rcases (grows.freeRun inv).2 with ⟨start, run⟩
          rw [pages] at run
          refine iff_of_false ?_ ?_
          · rintro ⟨t, failed⟩
            exact not_null returned t failed
          · rintro (null | ⟨_, refused⟩ | ⟨large, _⟩)
            · exact empty null
            · exact refused (Or.inr ⟨start, run⟩)
            · unfold headerSize at small
              omega
        · exact absurd noPages (grows.freeRun inv).1
      · have large := Nat.lt_of_not_le small
        rcases inv.kmalloc_in_vain bound (grows.takesInVain inv bound large tooSmall) with
          ⟨s', failed, _⟩
        exact iff_of_true ⟨s', failed⟩ (inv.refused_of_large bound large tooSmall)

theorem SessionInv.kmallocRoomy_iff (inv : SessionInv session reserved layout)
    (bound : size < 2 ^ 64) :
    KmallocRoomy session size ↔ size ≤ 2 ^ 64 - 8 ∨ session.heap.freeHead = 0 := by
  rcases inv.kmalloc size with ⟨ptr, heap, after, returned, inv', _, _, fresh⟩
  constructor
  · intro roomy
    by_contra neither
    rcases not_or.mp neither with ⟨large, listed⟩
    have served : ptr ≠ 0 := by
      rintro rfl
      rcases (inv.heap.kmalloc_null_iff bound).mp ⟨heap, returned⟩ with null | ⟨small, _⟩ | ⟨_, nil⟩
      · omega
      · exact large small
      · exact listed (inv.heap.freeHead_eq_zero_iff.mpr nil)
    rcases inv.heap.kmalloc_spec size with ⟨ptr', heap', _, returned', allocates⟩
    cases returned'.symm.trans returned
    have spaceLt := inv.heap.space.space_lt
    rcases allocates.result with ⟨null, _⟩ | ⟨b, place, _⟩
    · exact served null
    · refine inv.not_roomy allocates.effect.physOffset_eq served ?_ (roomy ptr heap returned)
      unfold headerSize at place
      omega
  · intro holds ptr' heap' returned'
    cases returned.symm.trans returned'
    intro nonzero
    refine ⟨⟨after, inv'.wellFormed⟩, ptr, ?_, Nat.le_refl _, Nat.add_le_add_left ?_ _⟩
    · exact session.mem_after_kmalloc heap nonzero
    · have small : size ≤ 2 ^ 64 - 8 := by
        by_contra large
        have nil := inv.heap.freeHead_eq_zero_iff.mp (holds.resolve_left large)
        rcases (inv.heap.kmalloc_null_iff bound).mpr (Or.inr (Or.inr ⟨by omega, nil⟩)) with
          ⟨s', failed⟩
        exact nonzero (congrArg Prod.fst (Option.some.inj (returned.symm.trans failed)))
      refine Nat.le_trans ?_ (fresh nonzero).2
      rw [alignUp_eq_rounded small]
      unfold rounded
      omega

/-! ## krealloc -/

theorem SessionInv.kreallocRoomy_iff (inv : SessionInv session reserved layout)
    (bound : size < 2 ^ 64) {old : Nat} (live : old ∈ session.held) :
    KreallocRoomy session old size ↔ size ≤ 2 ^ 64 - 8 := by
  rcases inv.call (.krealloc old size) (Or.inr live) with
    ⟨ptr, heap, after, returned, inv', _⟩
  rw [inv.held] at live
  rcases Layout.mem_pointers.mp live with ⟨blk, blkLive, rfl⟩
  have headerPos : 0 < headerSize := by decide
  constructor
  · intro roomy
    by_contra large
    -- the size is rounded to 0, and the old block is good enough for that
    have stays : Heap.krealloc (blk + headerSize) size session.heap =
        some (blk + headerSize, session.heap) := by
      unfold Heap.krealloc
      rw [if_neg (by omega), if_neg (by omega)]
      simp only
      rw [alignUp_eq_zero (by omega) bound, if_pos (Nat.zero_le _)]
    have spaceLt := inv.heap.space.space_lt
    refine inv.not_roomy rfl (by omega) ?_ (roomy _ _ stays)
    unfold headerSize
    omega
  · intro small ptr' heap' returned'
    cases returned.symm.trans returned'
    intro nonzero
    have positive : size ≠ 0 := by
      rintro rfl
      have freed : Heap.krealloc (blk + headerSize) 0 session.heap =
          some (0, kfree (blk + headerSize) session.heap) := by
        unfold Heap.krealloc
        rw [if_neg (by omega), if_pos rfl]
      exact nonzero (congrArg Prod.fst (Option.some.inj (returned.symm.trans freed)))
    refine ⟨⟨after, inv'.wellFormed⟩, ptr, ?_, Nat.le_refl _, Nat.add_le_add_left ?_ _⟩
    · have heldAfter : (session.after (.krealloc (blk + headerSize) size) ptr heap).held =
          insert ptr (session.held.erase (blk + headerSize)) := if_neg nonzero
      rw [heldAfter]
      exact Finset.mem_insert_self _ _
    · have roundedLe : size ≤ alignUp size 8 := by
        rw [alignUp_eq_rounded small]
        unfold rounded
        omega
      refine Nat.le_trans roundedLe ?_
      rcases inv.heap.krealloc_spec blkLive positive with
        ⟨ptr', heap', _, returned', _, _, moved, _⟩
      cases returned'.symm.trans returned
      cases moved with
      | failed _ => exact absurd rfl nonzero
      | stayed _ _ fits => exact (payloadSize_add heap.mem blk).symm ▸ fits
      | moved b _ _ fits _ => exact (payloadSize_add heap.mem b).symm ▸ fits

/-! ## kmalloc_aligned -/

theorem kmallocAligned_zero (align : Nat) (s : HeapState) :
    kmallocAligned 0 align s = some (0, s) := by
  unfold kmallocAligned
  rw [if_pos (Or.inl rfl)]

/-- The call in terms of the block it gets from `kmalloc`. -/
theorem kmallocAligned_eq {s heap : HeapState} {k raw : Nat} (positive : size ≠ 0)
    (returned : Heap.kmalloc (paddedSize size (2 ^ k)) s = some (raw, heap)) :
    kmallocAligned size (2 ^ k) s =
      if raw = 0 then some (0, heap)
      else some (alignUp (wrap64 (raw + 8)) (2 ^ k),
        heap.write fun mem => mem.store64 (sub64 (alignUp (wrap64 (raw + 8)) (2 ^ k)) 8) raw) := by
  have alignPos : 2 ^ k ≠ 0 := Nat.ne_of_gt (Nat.two_pow_pos k)
  have power : 2 ^ k &&& (2 ^ k - 1) = 0 := by
    rw [Nat.and_two_pow_sub_one_eq_mod, Nat.mod_self]
  unfold kmallocAligned
  rw [if_neg (not_or.mpr ⟨positive, alignPos⟩), if_neg (not_not.mpr power), returned]
  rfl

/-- `((void **)ptr)[-1] = raw` -/
def stash (ptr raw : Nat) (mem : Mem) : Mem := mem.store64 (ptr - 8) raw

/-- What `kmalloc_aligned` returns for a size it can pad: a multiple of the alignment with
room behind it and the stored pointer in front of it, all in the block behind `raw`. -/
structure AlignedBlock (session : Session) (reserved : Set Nat) (size k raw ptr : Nat)
    (heap : HeapState) (after : Layout) : Prop where
  allocated : Heap.kmalloc (paddedSize size (2 ^ k)) session.heap = some (raw, heap)
  raw_ne : raw ≠ 0
  raw_fresh : raw ∉ session.held
  returned : Heap.kmallocAligned size (2 ^ k) session.heap =
    some (ptr, heap.write (stash ptr raw))
  address : ptr = alignUp (raw + 8) (2 ^ k)
  aligned : 2 ^ k ∣ ptr
  low : raw + 8 ≤ ptr
  near : ptr ≤ raw + 8 + 2 ^ k - 1
  high : ptr + size ≤ raw + payloadSize heap.mem raw
  inv : SessionInv (session.after (.kmalloc (paddedSize size (2 ^ k))) raw heap) reserved after

theorem dvd_alignUp_pow {k : Nat} (le : k ≤ 64) (val : Nat) : 2 ^ k ∣ alignUp val (2 ^ k) := by
  rw [alignUp_eq le]
  exact Nat.dvd_mul_left _ _

/-- A block that is held lies below 2^64. -/
theorem SessionInv.held_lt (inv : SessionInv session reserved layout) (live : ptr ∈ session.held) :
    ptr + payloadSize session.heap.mem ptr ≤
      session.heap.physOffset + session.heap.phys.pmm.totalFrames * pageSize :=
  inv.wellFormed.room_le inv.taken_lt ⟨ptr, live, Nat.le_refl _, Nat.le_refl _⟩

theorem SessionInv.kmalloc_held (inv : SessionInv session reserved layout) {heap : HeapState}
    (returned : Heap.kmalloc size session.heap = some (ptr, heap)) (nonzero : ptr ≠ 0) :
    ∃ after, SessionInv (session.after (.kmalloc size) ptr heap) reserved after ∧
      (session.after (.kmalloc size) ptr heap).held = insert ptr session.held ∧
      ptr ∉ session.held ∧ alignUp size 8 ≤ payloadSize heap.mem ptr ∧
      ptr + payloadSize heap.mem ptr ≤
        session.heap.physOffset + session.heap.phys.pmm.totalFrames * pageSize ∧
      heap.physOffset = session.heap.physOffset ∧
      heap.phys.pmm.totalFrames = session.heap.phys.pmm.totalFrames := by
  rcases inv.kmalloc_returned returned with ⟨after, inv', _, _, fresh⟩
  have member : ptr ∈ (session.after (.kmalloc size) ptr heap).held :=
    session.mem_after_kmalloc heap nonzero
  rcases inv.heap.kmalloc_spec size with ⟨ptr', heap', _, returned', allocates⟩
  cases returned'.symm.trans returned
  have lt := inv'.held_lt member
  have offsetEq := allocates.effect.physOffset_eq
  have totalEq := allocates.effect.total_eq
  simp only [Session.after] at lt
  rw [offsetEq, totalEq] at lt
  exact ⟨after, inv', session.held_after_kmalloc heap nonzero, (fresh nonzero).1,
    (fresh nonzero).2, lt, offsetEq, totalEq⟩

theorem SessionInv.alignedBlock (inv : SessionInv session reserved layout) {k raw : Nat}
    (positive : size ≠ 0) (power : k < 64) (fits : size + 2 ^ k + headerSize + 8 ≤ 2 ^ 64 - 8)
    {heap : HeapState} (nonzero : raw ≠ 0)
    (allocated : Heap.kmalloc (paddedSize size (2 ^ k)) session.heap = some (raw, heap)) :
    ∃ ptr after, AlignedBlock session reserved size k raw ptr heap after := by
  have returned := kmallocAligned_eq positive allocated
  rcases inv.kmalloc_held allocated nonzero with
    ⟨after, inv', heldAfter, fresh, roomy, below, _⟩
  have spaceLt := inv.heap.space.space_lt
  have alignPos := Nat.two_pow_pos k
  have padded := @paddedSize_eq size (2 ^ k) (by omega)
  have enough : size + 2 ^ k + headerSize + 8 ≤ payloadSize heap.mem raw := by
    rw [padded, alignUp_eq_rounded fits] at roomy
    unfold rounded at roomy
    omega
  have headerPos : 0 < headerSize := by decide
  rw [if_neg nonzero, wrap64_of_lt (show raw + 8 < 2 ^ 64 by omega)] at returned
  have range := @le_alignUp k (raw + 8) (Nat.le_of_lt power) (by omega)
  have dvd := dvd_alignUp_pow (Nat.le_of_lt power) (raw + 8)
  rw [sub64_of_le (show 8 ≤ alignUp (raw + 8) (2 ^ k) by omega)] at returned
  exact ⟨_, after, allocated, nonzero, fresh, returned, rfl, dvd, range.1, range.2, by omega, inv'⟩

namespace AlignedBlock

variable {k raw : Nat} {heap : HeapState} {after : Layout}

/-- The pointer is stored inside the block. -/
theorem stash_inside (block : AlignedBlock session reserved size k raw ptr heap after) :
    ∀ place, (place < raw ∨ raw + payloadSize heap.mem raw ≤ place) →
      stash ptr raw heap.mem place = heap.mem place := by
  intro place outside
  have low := block.low
  have high := block.high
  exact Mem.store64_apply_of_outside (by omega)

theorem raw_held (block : AlignedBlock session reserved size k raw ptr heap after) :
    raw ∈ (session.after (.kmalloc (paddedSize size (2 ^ k))) raw heap).held :=
  session.mem_after_kmalloc heap block.raw_ne

/-- The session after the call is the one after `kmalloc` with the pointer stored. -/
theorem session_eq (block : AlignedBlock session reserved size k raw ptr heap after)
    (inv : SessionInv session reserved layout) :
    session.afterAligned size (2 ^ k) ptr (heap.write (stash ptr raw)) =
      { session.after (.kmalloc (paddedSize size (2 ^ k))) raw heap with
        heap := heap.write (stash ptr raw) } := by
  have low := block.low
  have high := block.high
  rcases inv.kmalloc_held block.allocated block.raw_ne with
    ⟨_, _, _, _, _, below, _, totalEq⟩
  have spaceLt := inv.heap.space.space_lt
  have stored : rawOf (stash ptr raw heap.mem) ptr = raw := by
    unfold rawOf stash
    rw [sub64_of_le (by omega), Mem.load64_store64_same]
    exact wrap64_of_lt (by omega)
  have used := (@SessionInv.write_keeps _ _ _ block.inv raw (stash ptr raw) block.raw_held
    block.stash_inside).2
  unfold Session.afterAligned
  rw [if_neg (by omega), HeapState.write_mem, stored]
  refine session.after_write _ _ fun frame bound => used frame ?_
  exact totalEq.symm ▸ bound

theorem sessionInv (block : AlignedBlock session reserved size k raw ptr heap after)
    (inv : SessionInv session reserved layout) :
    SessionInv (session.afterAligned size (2 ^ k) ptr
      (heap.write (stash ptr raw))) reserved after := by
  rw [block.session_eq inv]
  exact block.inv.write block.raw_held block.stash_inside

theorem hasRoom (block : AlignedBlock session reserved size k raw ptr heap after)
    (inv : SessionInv session reserved layout) :
    (session.afterAligned size (2 ^ k) ptr
      (heap.write (stash ptr raw))).HasRoom ptr size := by
  have low := block.low
  rw [block.session_eq inv]
  refine ⟨raw, block.raw_held, by omega, ?_⟩
  have same := ((@SessionInv.write_keeps _ _ _ block.inv raw (stash ptr raw) block.raw_held
    block.stash_inside).1 raw block.raw_held).1
  exact Nat.le_trans block.high (Nat.le_of_eq (congrArg (raw + ·) same.symm))

end AlignedBlock

/-- The requests that `kmalloc_aligned` can pad without overflow, or does not serve. -/
def AlignedFits (s : HeapState) (layout : Layout) (size align : Nat) : Prop :=
  size = 0 ∨ size + align + headerSize + 8 ≤ 2 ^ 64 - 8 ∨
    Refused s layout (paddedSize size align)

theorem paddedSize_lt (size align : Nat) : paddedSize size align < 2 ^ 64 := wrap64_lt _

theorem SessionInv.alignedRoomy_of_fits (inv : SessionInv session reserved layout) {k : Nat}
    (power : k < 64) (fits : AlignedFits session.heap layout size (2 ^ k)) :
    AlignedRoomy session size (2 ^ k) := by
  intro ptr heap returned nonzero
  have positive : size ≠ 0 := by
    rintro rfl
    rw [kmallocAligned_zero] at returned
    exact nonzero (congrArg Prod.fst (Option.some.inj returned)).symm
  rcases inv.kmalloc (paddedSize size (2 ^ k)) with ⟨raw, middle, _, allocated, _⟩
  have eq := kmallocAligned_eq positive allocated
  have served : raw ≠ 0 := by
    intro null
    rw [if_pos null, returned] at eq
    exact nonzero (congrArg Prod.fst (Option.some.inj eq))
  rcases fits with empty | small | refused
  · exact absurd empty positive
  · rcases inv.alignedBlock positive power small served allocated with ⟨ptr', after, block⟩
    cases block.returned.symm.trans returned
    exact ⟨⟨after, (block.sessionInv inv).wellFormed⟩, block.hasRoom inv⟩
  · rcases (inv.heap.kmalloc_null_iff (paddedSize_lt _ _)).mpr refused with ⟨t, failed⟩
    exact absurd (congrArg Prod.fst (Option.some.inj (allocated.symm.trans failed))) served

/-- With the memory in the lower half of the address space, nothing else has room. -/
theorem SessionInv.alignedFits_of_roomy (inv : SessionInv session reserved layout) {k : Nat}
    (power : k < 64)
    (low : session.heap.physOffset + session.heap.phys.pmm.totalFrames * pageSize ≤ 2 ^ 47)
    (roomy : AlignedRoomy session size (2 ^ k)) :
    AlignedFits session.heap layout size (2 ^ k) := by
  by_contra misfit
  rcases not_or.mp misfit with ⟨positive, rest⟩
  rcases not_or.mp rest with ⟨large, served⟩
  rcases inv.kmalloc (paddedSize size (2 ^ k)) with ⟨raw, heap, _, allocated, _⟩
  have nonzero : raw ≠ 0 := by
    rintro rfl
    exact served ((inv.heap.kmalloc_null_iff (paddedSize_lt _ _)).mp ⟨heap, allocated⟩)
  have returned := kmallocAligned_eq positive allocated
  rcases inv.kmalloc_held allocated nonzero with ⟨_, _, _, _, _, below, offsetEq, _⟩
  have alignLe : 2 ^ k ≤ 2 ^ 63 := Nat.pow_le_pow_right (by decide) (by omega)
  rw [if_neg nonzero, wrap64_of_lt (show raw + 8 < 2 ^ 64 by omega)] at returned
  have range := @le_alignUp k (raw + 8) (Nat.le_of_lt power) (by omega)
  have roomy' := roomy _ _ returned
  refine inv.not_roomy ?_ (by omega) ?_ roomy'
  · exact offsetEq
  · unfold headerSize at large
    omega

/-! ## The three functions -/

/-- In every session that a new heap can reach, and for every 64-bit size, each
of the three functions gives enough room under exactly these conditions; the last
one assumes for the converse that the memory is in the lower half of the address
space. -/
theorem reachable_roomy_iff {phys : PhysState} {offset : Nat}
    (space : FrameSpace phys offset reserved)
    (reachable : Session.Reachable reserved offset phys session) (bound : size < 2 ^ 64) :
    ∃ layout, WellFormed session layout ∧
      (KmallocRoomy session size ↔ size ≤ 2 ^ 64 - 8 ∨ session.heap.freeHead = 0) ∧
      (∀ old ∈ session.held, (KreallocRoomy session old size ↔ size ≤ 2 ^ 64 - 8)) ∧
      (∀ k, k < 64 →
        (AlignedFits session.heap layout size (2 ^ k) → AlignedRoomy session size (2 ^ k)) ∧
        (session.heap.physOffset + session.heap.phys.pmm.totalFrames * pageSize ≤ 2 ^ 47 →
          AlignedRoomy session size (2 ^ k) →
            AlignedFits session.heap layout size (2 ^ k)) ∧
        (paddedSize size (2 ^ k) = size + 2 ^ k + headerSize + 8 ↔
          size + 2 ^ k + headerSize + 8 < 2 ^ 64)) ∧
      (Unwrapped size ↔ rounded size + headerSize + (pageSize - 1) < 2 ^ 64) := by
  rcases reachable_inv space reachable with ⟨layout, inv⟩
  refine ⟨layout, inv.wellFormed, inv.kmallocRoomy_iff bound,
    fun old live => inv.kreallocRoomy_iff bound live, fun k power => ?_, unwrapped_iff bound⟩
  exact ⟨inv.alignedRoomy_of_fits power, inv.alignedFits_of_roomy power, paddedSize_iff⟩

end Bounds

/-- With one block in use on the small machine, the three functions give room for
5000 bytes, at every alignment. -/
theorem reachable_roomy_iff_small :
    ∃ first, Heap.kmalloc 100 (heapInit 0 smallMachine) = some (8240, first) ∧
      let session := Session.after ⟨heapInit 0 smallMachine, ∅, ∅⟩ (.kmalloc 100) 8240 first
      KmallocRoomy session 5000 ∧ KreallocRoomy session 8240 5000 ∧
        (∀ k, k < 64 → AlignedRoomy session 5000 (2 ^ k)) ∧ Unwrapped 5000 := by
  rcases smallMachine_kmalloc with ⟨first, returned, _, reachable⟩
  refine ⟨first, returned, ?_⟩
  rcases @reachable_roomy_iff _ _ 5000 _ _ smallMachine_space reachable (by decide) with
    ⟨layout, _, kmalloc, krealloc, aligned, unwrapped⟩
  have held := Finset.mem_insert_self 8240 (∅ : Finset Nat)
  refine ⟨kmalloc.mpr (Or.inl (by decide)), (krealloc 8240 held).mpr (by decide),
    fun k power => (aligned k power).1 (Or.inr (Or.inl ?_)), unwrapped.mpr (by decide)⟩
  have alignLe : 2 ^ k ≤ 2 ^ 63 := Nat.pow_le_pow_right (by decide) (by omega)
  unfold headerSize
  omega

/-- With a block in the free list, a request of 2^64 - 1 bytes is rounded to 0 and
returns a block of that size. -/
theorem not_kmallocRoomy_overflow :
    ∃ first, Heap.kmalloc 100 (heapInit 0 smallMachine) = some (8240, first) ∧
      Session.Reachable {frame | frame < reservedFrames (ramSize 32768) 4000} 0 smallMachine
        (Session.after ⟨heapInit 0 smallMachine, ∅, ∅⟩ (.kmalloc 100) 8240 first) ∧
      alignUp (2 ^ 64 - 1) 8 = 0 ∧ (∃ ptr heap, ptr ≠ 0 ∧
        Heap.kmalloc (2 ^ 64 - 1) first = some (ptr, heap)) ∧
      ¬ KmallocRoomy (Session.after ⟨heapInit 0 smallMachine, ∅, ∅⟩ (.kmalloc 100) 8240 first)
        (2 ^ 64 - 1) := by
  rcases smallMachine_kmalloc with ⟨first, returned, head, reachable⟩
  rcases reachable_inv smallMachine_space reachable with ⟨layout, inv⟩
  have narrow : ¬ KmallocRoomy (Session.after ⟨heapInit 0 smallMachine, ∅, ∅⟩ (.kmalloc 100) 8240
      first) (2 ^ 64 - 1) := by
    rw [inv.kmallocRoomy_iff (by decide)]
    rintro (small | empty)
    · exact absurd small (by decide)
    · exact absurd (head.symm.trans empty) (by decide)
  refine ⟨first, returned, reachable, by decide, ?_, narrow⟩
  by_contra none
  refine narrow fun ptr heap allocated nonzero => ?_
  exact absurd ⟨ptr, heap, nonzero, allocated⟩ none

end Heap
end AuraKernel
