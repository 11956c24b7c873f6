import AuraKernel.Heap.Calls
import Mathlib.Logic.Relation

namespace AuraKernel
namespace Heap

open Machine
open Physical

/-!
# Runs of the heap

A session is a heap together with what its callers hold: the pointers that were
handed out and not given back, and the frames that the heap has taken.  Between
two calls a caller may write into its payloads, and the rest of the kernel may
do anything that leaves the heap's frames alone, allocating and releasing other
frames included.
-/

/-- The three calls that change the heap. -/
inductive Call where
  | kmalloc (size : Nat)
  | kfree (ptr : Nat)
  | krealloc (ptr size : Nat)
deriving DecidableEq, Repr

namespace Call

/-- The call with its result, which is 0 for `kfree`. -/
def run : Call → HeapState → Option (Nat × HeapState)
  | kmalloc size, s => Heap.kmalloc size s
  | kfree ptr, s => some (0, Heap.kfree ptr s)
  | krealloc ptr size, s => Heap.krealloc ptr size s

/-- A caller gives back NULL or a pointer it holds. -/
def Allowed (held : Finset Nat) : Call → Prop
  | kmalloc _ => True
  | kfree ptr => ptr = 0 ∨ ptr ∈ held
  | krealloc ptr _ => ptr = 0 ∨ ptr ∈ held

/-- The pointers that are held after the call has returned `result`. -/
def handed (result : Nat) (held : Finset Nat) : Call → Finset Nat
  | kmalloc _ => if result = 0 then held else insert result held
  | kfree ptr => held.erase ptr
  | krealloc ptr size =>
      if result = 0 then (if size = 0 then held.erase ptr else held)
      else insert result (held.erase ptr)

end Call

/-- A heap with the pointers its callers hold and the frames it has taken. -/
structure Session where
  heap : HeapState
  held : Finset Nat
  taken : Set Nat

/-- The recorded size of the block behind a pointer. -/
def payloadSize (mem : Mem) (ptr : Nat) : Nat := Block.size mem (ptr - headerSize)

def Session.after (s : Session) (call : Call) (result : Nat) (heap : HeapState) : Session where
  heap := heap
  held := call.handed result s.held
  taken := s.taken ∪ {frame | frame < s.heap.phys.pmm.totalFrames ∧
    s.heap.phys.Free frame ∧ heap.phys.Used frame}

/-- `kmalloc` hands its pointer to the callers. -/
theorem Session.held_after_kmalloc (s : Session) (heap : HeapState) {size ptr : Nat}
    (nonzero : ptr ≠ 0) : (s.after (.kmalloc size) ptr heap).held = insert ptr s.held :=
  if_neg nonzero

theorem Session.mem_after_kmalloc (s : Session) (heap : HeapState) {size ptr : Nat}
    (nonzero : ptr ≠ 0) : ptr ∈ (s.after (.kmalloc size) ptr heap).held := by
  rw [s.held_after_kmalloc heap nonzero]
  exact Finset.mem_insert_self _ _

inductive Session.Step (reserved : Set Nat) : Session → Session → Prop
  | call {s : Session} (call : Call) (result : Nat) (heap : HeapState)
      (allowed : call.Allowed s.held) (returns : call.run s.heap = some (result, heap)) :
      Step reserved s (s.after call result heap)
  | write {s : Session} (ptr : Nat) (assign : Mem → Mem) (member : ptr ∈ s.held)
      (only : ∀ place, (place < ptr ∨ ptr + payloadSize s.heap.mem ptr ≤ place) →
        assign s.heap.mem place = s.heap.mem place) :
      Step reserved s { s with heap := s.heap.write assign }
  | other {s : Session} (phys : PhysState) (space : FrameSpace phys s.heap.physOffset reserved)
      (total : phys.pmm.totalFrames = s.heap.phys.pmm.totalFrames)
      (used : ∀ frame ∈ s.taken, phys.Used frame)
      (same : ∀ frame ∈ s.taken, ∀ place, s.heap.physOffset + frame * pageSize ≤ place →
        place < s.heap.physOffset + (frame + 1) * pageSize → phys.mem place = s.heap.mem place) :
      Step reserved s { s with heap := { s.heap with phys := phys } }

/-- The steps of a session that are not calls of the heap. -/
inductive Session.Quiet (reserved : Set Nat) : Session → Session → Prop
  | write {s : Session} (ptr : Nat) (assign : Mem → Mem) (member : ptr ∈ s.held)
      (only : ∀ place, (place < ptr ∨ ptr + payloadSize s.heap.mem ptr ≤ place) →
        assign s.heap.mem place = s.heap.mem place) :
      Quiet reserved s { s with heap := s.heap.write assign }
  | other {s : Session} (phys : PhysState) (space : FrameSpace phys s.heap.physOffset reserved)
      (total : phys.pmm.totalFrames = s.heap.phys.pmm.totalFrames)
      (used : ∀ frame ∈ s.taken, phys.Used frame)
      (same : ∀ frame ∈ s.taken, ∀ place, s.heap.physOffset + frame * pageSize ≤ place →
        place < s.heap.physOffset + (frame + 1) * pageSize → phys.mem place = s.heap.mem place) :
      Quiet reserved s { s with heap := { s.heap with phys := phys } }

/-- What callers and the rest of the kernel do is a step of the session. -/
theorem Session.Quiet.step {reserved : Set Nat} {s s' : Session}
    (quiet : Session.Quiet reserved s s') : Session.Step reserved s s' := by
  cases quiet with
  | write ptr assign member only => exact Session.Step.write ptr assign member only
  | other phys space total used same => exact Session.Step.other phys space total used same

/-- The sessions that a new heap can reach. -/
def Session.Reachable (reserved : Set Nat) (offset : Nat) (phys : PhysState) : Session → Prop :=
  Relation.ReflTransGen (Session.Step reserved)
    { heap := heapInit offset phys, held := ∅, taken := ∅ }

/-! ## The new heap -/

section Steps

variable {s s' : HeapState} {reserved : Set Nat} {layout after : Layout}

/-- The pointers to the payloads in use. -/
def Layout.pointers (layout : Layout) (mem : Mem) : Finset Nat :=
  (layout.live mem).image (· + headerSize)

theorem add_header_injective : Function.Injective (· + headerSize) := fun _ _ same =>
  Nat.add_right_cancel same

theorem Layout.mem_pointers {mem : Mem} {ptr : Nat} :
    ptr ∈ layout.pointers mem ↔ ∃ b ∈ layout.live mem, ptr = b + headerSize := by
  unfold Layout.pointers
  rw [Finset.mem_image]
  exact exists_congr fun b => and_congr_right fun _ => eq_comm

theorem Layout.zero_not_mem_pointers (mem : Mem) : 0 ∉ layout.pointers mem := by
  rw [Layout.mem_pointers]
  rintro ⟨b, _, null⟩
  have headerPos : 0 < headerSize := by decide
  omega

/-- `heap_init` starts with no regions at all. -/
theorem heapInit_inv {phys : PhysState} {offset : Nat} (space : FrameSpace phys offset reserved) :
    HeapInv (heapInit offset phys) reserved { blocks := ∅, nodes := [], regions := ∅ } where
  space := space
  tiling := by
    constructor
    all_goals simp
  runs := by simp
  freeList := ⟨rfl, List.nodup_nil, by simp⟩
  free_iff := by simp
  accounted := rfl
  extent := rfl

/-! ## Steps -/

/-- An operation that takes pointers from `held` to `held'`. -/
structure Performs (s s' : HeapState) (reserved : Set Nat) (layout after : Layout)
    (held' : Finset Nat) : Prop where
  inv : HeapInv s' reserved after
  effect : HeapEffect s s' layout after (layout.live s.mem ∩ after.live s'.mem)
  held : held' = after.pointers s'.mem
  merged : layout.Merged s.mem → after.Merged s'.mem

theorem Allocates.performs {size ptr : Nat}
    (allocates : Allocates s s' reserved layout after size ptr) :
    Performs s s' reserved layout after
      (if ptr = 0 then layout.pointers s.mem else insert ptr (layout.pointers s.mem)) := by
  rcases allocates with ⟨inv', effect, result, merges⟩
  refine ⟨inv', effect.mono Finset.inter_subset_left, ?_, merges⟩
  rcases result with ⟨null, live⟩ | ⟨b, place, _, live, _⟩
  · rw [if_pos null]
    unfold Layout.pointers
    rw [live]
  · have headerPos : 0 < headerSize := by decide
    rw [if_neg (by omega), place]
    unfold Layout.pointers
    rw [live, Finset.image_insert]

theorem Frees.performs {blk : Nat} (frees : Frees s s' reserved layout after blk) :
    Performs s s' reserved layout after ((layout.pointers s.mem).erase (blk + headerSize)) := by
  rcases frees with ⟨inv', effect, live, _, merges, _, _, _⟩
  refine ⟨inv', effect.mono ?_, ?_, merges⟩
  · rw [live]
    exact Finset.inter_subset_right
  · unfold Layout.pointers
    rw [live, Finset.image_erase add_header_injective]

theorem HeapInv.performs_nothing (inv : HeapInv s reserved layout) :
    Performs s s reserved layout layout ((layout.pointers s.mem).erase 0) where
  inv := inv
  effect := HeapEffect.refl s layout Finset.inter_subset_left
  held := Finset.erase_eq_of_notMem (Layout.zero_not_mem_pointers _)
  merged := id

theorem HeapInv.kfree_performs {ptr : Nat} (inv : HeapInv s reserved layout)
    (allowed : ptr = 0 ∨ ptr ∈ layout.pointers s.mem) :
    ∃ after, Performs s (kfree ptr s) reserved layout after
      ((layout.pointers s.mem).erase ptr) := by
  rcases allowed with rfl | member
  · exact ⟨layout, inv.performs_nothing⟩
  · rcases Layout.mem_pointers.mp member with ⟨blk, blkLive, rfl⟩
    rcases inv.kfree_spec blkLive with ⟨after, frees⟩
    exact ⟨after, frees.performs⟩

theorem Moved.held_eq {blk size ptr : Nat} (member : blk ∈ layout.live s.mem)
    (moved : Moved s s' layout after blk size ptr) :
    (if ptr = 0 then layout.pointers s.mem
      else insert ptr ((layout.pointers s.mem).erase (blk + headerSize))) =
      after.pointers s'.mem := by
  have headerPos : 0 < headerSize := by decide
  cases moved with
  | failed live =>
      unfold Layout.pointers
      rw [if_pos rfl, live]
  | stayed _ live _ =>
      have held : blk + headerSize ∈ layout.pointers s.mem :=
        Layout.mem_pointers.mpr ⟨blk, member, rfl⟩
      rw [if_neg (by omega), Finset.insert_erase held]
      unfold Layout.pointers
      rw [live]
  | moved b _ live _ _ =>
      rw [if_neg (by omega)]
      unfold Layout.pointers
      rw [live, Finset.image_insert, Finset.image_erase add_header_injective]

/-- Every call returns and keeps the invariant. -/
theorem HeapInv.call_performs (inv : HeapInv s reserved layout) (call : Call)
    (allowed : call.Allowed (layout.pointers s.mem)) :
    ∃ result s' after, call.run s = some (result, s') ∧
      Performs s s' reserved layout after (call.handed result (layout.pointers s.mem)) := by
  cases call with
  | kmalloc size =>
      rcases inv.kmalloc_spec size with ⟨ptr, s', after, returned, allocates⟩
      exact ⟨ptr, s', after, returned, allocates.performs⟩
  | kfree ptr =>
      rcases inv.kfree_performs allowed with ⟨after, performs⟩
      exact ⟨0, _, after, rfl, performs⟩
  | krealloc ptr size =>
      by_cases null : ptr = 0
      · subst null
        rcases inv.kmalloc_spec size with ⟨ptr, s', after, returned, allocates⟩
        refine ⟨ptr, s', after, returned, ?_⟩
        have performs := allocates.performs
        simp only [Call.handed]
        rw [Finset.erase_eq_of_notMem (Layout.zero_not_mem_pointers _), ite_self]
        exact performs
      · have member : ptr ∈ layout.pointers s.mem := allowed.resolve_left null
        by_cases empty : size = 0
        · subst empty
          rcases inv.kfree_performs (Or.inr member) with ⟨after, performs⟩
          refine ⟨0, _, after, ?_, performs⟩
          simp only [Call.run, krealloc, if_neg null, if_true]
        · rcases Layout.mem_pointers.mp member with ⟨blk, blkLive, rfl⟩
          rcases inv.krealloc_spec blkLive empty with
            ⟨q, s', after, returned, inv', effect, moved, merges⟩
          refine ⟨q, s', after, returned, inv', effect, ?_, merges⟩
          simp only [Call.handed, if_neg empty]
          exact moved.held_eq blkLive

/-! ## Sessions -/

structure SessionInv (session : Session) (reserved : Set Nat) (layout : Layout) : Prop where
  heap : HeapInv session.heap reserved layout
  held : session.held = layout.pointers session.heap.mem
  taken : session.taken = layout.frames session.heap.physOffset
  merged : layout.Merged session.heap.mem

/-- What a call from `before` to `after` leaves alone: the payloads held on both sides. -/
def KeepsPayloads (before after : Session) : Prop :=
  ∀ ptr ∈ before.held, ptr ∈ after.held →
    payloadSize after.heap.mem ptr = payloadSize before.heap.mem ptr ∧
      ∀ place, ptr ≤ place → place < ptr + payloadSize before.heap.mem ptr →
        after.heap.mem place = before.heap.mem place

theorem payloadSize_add (mem : Mem) (b : Nat) :
    payloadSize mem (b + headerSize) = Block.size mem b := by
  unfold payloadSize
  rw [Nat.add_sub_cancel]

/-- The frames after an operation are those before it and those it has taken. -/
theorem HeapEffect.frames_eq {before : Layout} {kept : Finset Nat}
    (effect : HeapEffect s s' before after kept) (inv' : HeapInv s' reserved after) :
    before.frames s.physOffset ∪ {frame | frame < s.phys.pmm.totalFrames ∧
      s.phys.Free frame ∧ s'.phys.Used frame} = after.frames s.physOffset := by
  ext frame
  have mono := @HeapEffect.frames_mono s.physOffset _ _ effect.regions_le frame
  constructor
  · rintro (old | ⟨bound, free, used⟩)
    · exact mono old
    · rcases (effect.used_iff frame bound).mp used with before | ⟨inAfter, _⟩
      · exact absurd before ((PhysState.not_used_iff _ _).mpr free)
      · exact inAfter
  · intro inAfter
    rcases effect.new_free frame inAfter with old | ⟨bound, free⟩
    · exact Or.inl old
    · refine Or.inr ⟨bound, free, ?_⟩
      rw [← effect.physOffset_eq] at inAfter
      exact (inv'.frames_owned inAfter).1

/-- The session after a call that changes what is held as it should. -/
theorem SessionInv.performs {session : Session} {call : Call} {result : Nat} {heap : HeapState}
    (inv : SessionInv session reserved layout)
    (performs : Performs session.heap heap reserved layout after
      (call.handed result (layout.pointers session.heap.mem))) :
    SessionInv (session.after call result heap) reserved after ∧
      KeepsPayloads session (session.after call result heap) := by
  rcases inv with ⟨heapInv, held, taken, merged⟩
  rcases performs with ⟨inv', effect, held', merges⟩
  refine ⟨⟨inv', ?_, ?_, merges merged⟩, ?_⟩
  · simp only [Session.after, held]
    exact held'
  · simp only [Session.after]
    rw [effect.physOffset_eq, taken]
    exact effect.frames_eq inv'
  · intro ptr before afterwards
    simp only [Session.after] at afterwards ⊢
    rw [held] at before afterwards
    rw [held'] at afterwards
    rcases Layout.mem_pointers.mp before with ⟨b, live, rfl⟩
    rcases Layout.mem_pointers.mp afterwards with ⟨c, live', same⟩
    have : c = b := (Nat.add_right_cancel same).symm
    subst this
    have kept := Finset.mem_inter.mpr ⟨live, live'⟩
    rw [payloadSize_add, payloadSize_add]
    exact ⟨effect.size_eq c kept, effect.payload_eq c kept⟩

theorem SessionInv.call {session : Session} (inv : SessionInv session reserved layout)
    (call : Call) (allowed : call.Allowed session.held) :
    ∃ result heap after, call.run session.heap = some (result, heap) ∧
      SessionInv (session.after call result heap) reserved after ∧
      KeepsPayloads session (session.after call result heap) := by
  rw [inv.held] at allowed
  rcases inv.heap.call_performs call allowed with ⟨result, heap, after, returned, performs⟩
  exact ⟨result, heap, after, returned, inv.performs performs⟩

/-- A call of `kmalloc`: NULL, without effect if the size is moderate, or a new
pointer to enough room. -/
theorem SessionInv.kmalloc {session : Session} (inv : SessionInv session reserved layout)
    (size : Nat) :
    ∃ ptr heap after, Heap.kmalloc size session.heap = some (ptr, heap) ∧
      SessionInv (session.after (.kmalloc size) ptr heap) reserved after ∧
      KeepsPayloads session (session.after (.kmalloc size) ptr heap) ∧
      (ptr = 0 → size + headerSize + 2 * pageSize ≤ 2 ^ 64 → heap = session.heap) ∧
      (ptr ≠ 0 → ptr ∉ session.held ∧ alignUp size 8 ≤ payloadSize heap.mem ptr) := by
  rcases inv.call (.kmalloc size) trivial with ⟨ptr, heap, after, returned, inv', keeps⟩
  refine ⟨ptr, heap, after, returned, inv', keeps, ?_, ?_⟩
  · rintro rfl small
    exact inv.heap.kmalloc_null small returned
  · intro nonzero
    rcases inv.heap.kmalloc_spec size with ⟨ptr', heap', _, returned', allocates⟩
    cases returned'.symm.trans returned
    rcases allocates.result with ⟨null, _⟩ | ⟨b, place, fresh, _, fits, _⟩
    · exact absurd null nonzero
    · rw [place, payloadSize_add, inv.held, Layout.mem_pointers]
      refine ⟨?_, fits⟩
      rintro ⟨c, live, equal⟩
      exact fresh (Nat.add_right_cancel equal ▸ live)

theorem SessionInv.call_returned {session : Session} (inv : SessionInv session reserved layout)
    {call : Call} (allowed : call.Allowed session.held) {result : Nat} {heap : HeapState}
    (returns : call.run session.heap = some (result, heap)) :
    ∃ after, SessionInv (session.after call result heap) reserved after ∧
      KeepsPayloads session (session.after call result heap) := by
  rcases inv.call call allowed with ⟨result', heap', after, returned, inv', keeps⟩
  cases returned.symm.trans returns
  exact ⟨after, inv', keeps⟩

/-- A call of `kmalloc` whose result is known. -/
theorem SessionInv.kmalloc_returned {session : Session} (inv : SessionInv session reserved layout)
    {size ptr : Nat} {heap : HeapState}
    (returns : Heap.kmalloc size session.heap = some (ptr, heap)) :
    ∃ after, SessionInv (session.after (.kmalloc size) ptr heap) reserved after ∧
      KeepsPayloads session (session.after (.kmalloc size) ptr heap) ∧
      (ptr = 0 → size + headerSize + 2 * pageSize ≤ 2 ^ 64 → heap = session.heap) ∧
      (ptr ≠ 0 → ptr ∉ session.held ∧ alignUp size 8 ≤ payloadSize heap.mem ptr) := by
  rcases inv.kmalloc size with ⟨ptr', heap', after, returned, facts⟩
  cases returned.symm.trans returns
  exact ⟨after, facts⟩

/-- A caller's own writes keep the invariant. -/
theorem SessionInv.write {session : Session} (inv : SessionInv session reserved layout)
    {ptr : Nat} {assign : Mem → Mem} (member : ptr ∈ session.held)
    (only : ∀ place, (place < ptr ∨ ptr + payloadSize session.heap.mem ptr ≤ place) →
      assign session.heap.mem place = session.heap.mem place) :
    SessionInv { session with heap := session.heap.write assign } reserved layout := by
  rcases inv with ⟨heapInv, held, taken, merged⟩
  rw [held] at member
  rcases Layout.mem_pointers.mp member with ⟨b, live, rfl⟩
  rw [payloadSize_add] at only
  rcases heapInv.writePayload (mem_usedBlocks.mp live).1 only with
    ⟨inv', _, tags, merges⟩
  refine ⟨inv', ?_, taken, merges merged⟩
  have same : layout.live (assign session.heap.mem) = layout.live session.heap.mem :=
    usedBlocks_congr tags
  simp only [held, HeapState.write_mem]
  unfold Layout.pointers
  rw [same]

/-- The blocks of a heap lie in its frames. -/
theorem HeapInv.block_frame (inv : HeapInv s reserved layout) {b place : Nat}
    (member : b ∈ layout.blocks) (low : b ≤ place)
    (high : place < b + headerSize + Block.size s.mem b) :
    ∃ frame ∈ layout.frames s.physOffset, s.physOffset + frame * pageSize ≤ place ∧
      place < s.physOffset + (frame + 1) * pageSize := by
  rcases inv.block_place member with ⟨r, rMem, low', high'⟩
  rcases inv.runs r rMem with ⟨first, count, rfl, _, _, _⟩
  simp only [frameRegion] at low' high'
  rcases @frame_of_place s.physOffset first count place (by omega) with
    ⟨frame, firstLe, frameLt, within, within'⟩
  refine ⟨frame, ⟨_, rMem, ?_⟩, within, within'⟩
  simp only [frameRegion]
  have lower := Nat.mul_le_mul_right pageSize firstLe
  have upper := Nat.mul_lt_mul_of_pos_right frameLt (by decide : 0 < pageSize)
  omega

/-- What the rest of the kernel does keeps the invariant. -/
theorem SessionInv.other {session : Session} (inv : SessionInv session reserved layout)
    {phys : PhysState} (space : FrameSpace phys session.heap.physOffset reserved)
    (total : phys.pmm.totalFrames = session.heap.phys.pmm.totalFrames)
    (used : ∀ frame ∈ session.taken, phys.Used frame)
    (same : ∀ frame ∈ session.taken, ∀ place,
      session.heap.physOffset + frame * pageSize ≤ place →
      place < session.heap.physOffset + (frame + 1) * pageSize →
      phys.mem place = session.heap.mem place) :
    SessionInv { session with heap := { session.heap with phys := phys } } reserved layout := by
  rcases inv with ⟨heapInv, held, taken, merged⟩
  rw [taken] at used same
  have headers : ∀ b ∈ layout.blocks, ∀ place, b ≤ place → place < b + headerSize →
      phys.mem place = session.heap.mem place := by
    intro b member place low high
    rcases heapInv.block_frame member low (by omega) with ⟨frame, inHeap, within, within'⟩
    exact same frame inHeap place within within'
  have inv' : HeapInv { session.heap with phys := phys } reserved layout :=
    heapInv.frame space total (fun frame inHeap _ => used frame inHeap) headers rfl rfl rfl
  have tags : ∀ b ∈ layout.blocks, tagOf phys.mem b = tagOf session.heap.mem b :=
    fun b member => (header_congr (headers b member)).1
  refine ⟨inv', ?_, taken, merged.congr tags inv'.tiling.next_mem⟩
  have live : layout.live phys.mem = layout.live session.heap.mem := usedBlocks_congr tags
  have physMem : ({ session.heap with phys := phys } : HeapState).mem = phys.mem := rfl
  simp only [held, physMem]
  unfold Layout.pointers
  rw [live]

/-! ## Steps without a call -/

/-- What the steps that are not calls leave alone. -/
structure KeepsHeaders (layout : Layout) (before after : Session) : Prop where
  held_eq : after.held = before.held
  freeHead_eq : after.heap.freeHead = before.heap.freeHead
  tag_eq : ∀ b ∈ layout.blocks, tagOf after.heap.mem b = tagOf before.heap.mem b
  stale : ∀ h, layout.Stale before.heap.mem h → layout.Stale after.heap.mem h

theorem KeepsHeaders.trans {first second third : Session}
    (keeps : KeepsHeaders layout first second) (keeps' : KeepsHeaders layout second third) :
    KeepsHeaders layout first third where
  held_eq := keeps'.held_eq.trans keeps.held_eq
  freeHead_eq := keeps'.freeHead_eq.trans keeps.freeHead_eq
  tag_eq := fun b member => (keeps'.tag_eq b member).trans (keeps.tag_eq b member)
  stale := fun h stale => keeps'.stale h (keeps.stale h stale)

/-- Stale headers depend on the memory of the free blocks only. -/
theorem Layout.Stale.congr {mem mem' : Mem} {h : Nat} (stale : layout.Stale mem h)
    (same : ∀ b ∈ layout.blocks, Block.used mem b = 0 → ∀ place, b ≤ place →
      place < b + headerSize + Block.size mem b → mem' place = mem place) :
    layout.Stale mem' h := by
  rcases stale with ⟨marked, b, member, free, place⟩
  have inside := same b member free
  have sizeEq : Block.size mem' b = Block.size mem b :=
    Mem.load64_congr fun p low high => inside p low (by unfold headerSize; omega)
  refine ⟨(inside (h + 8) ?_ ?_).trans marked, b, member, ?_, ?_⟩
  · omega
  · unfold headerSize at place ⊢
    omega
  · exact (inside (b + 8) (by omega) (by unfold headerSize; omega)).trans free
  · rw [sizeEq]
    exact place

/-- A caller writes into a block in use, and no free block overlaps it. -/
theorem HeapInv.stale_write (inv : HeapInv s reserved layout) {b h : Nat} {mem' : Mem}
    (live : b ∈ layout.live s.mem) (stale : layout.Stale s.mem h)
    (only : ∀ place, (place < b + headerSize ∨ b + headerSize + Block.size s.mem b ≤ place) →
      mem' place = s.mem place) : layout.Stale mem' h := by
  rcases mem_usedBlocks.mp live with ⟨bMem, used⟩
  refine stale.congr fun c cMem free place low high => only place ?_
  have different : b ≠ c := fun same => used (same ▸ free)
  have apart := inv.blocks_apart bMem cMem different
  omega

theorem SessionInv.quiet {session next : Session} (inv : SessionInv session reserved layout)
    (quiet : Session.Quiet reserved session next) :
    SessionInv next reserved layout ∧ KeepsHeaders layout session next := by
  cases quiet with
  | write ptr assign member only =>
      refine ⟨inv.write member only, rfl, rfl, ?_, ?_⟩
      all_goals
        rw [inv.held] at member
        rcases Layout.mem_pointers.mp member with ⟨b, live, rfl⟩
        rw [payloadSize_add] at only
      · exact (inv.heap.writePayload (mem_usedBlocks.mp live).1 only).2.2.1
      · exact fun h stale => inv.heap.stale_write live stale only
  | other phys space total used same =>
      have inside : ∀ b ∈ layout.blocks, ∀ place, b ≤ place →
          place < b + headerSize + Block.size session.heap.mem b →
          phys.mem place = session.heap.mem place := by
        intro b member place low high
        rcases inv.heap.block_frame member low high with ⟨frame, inHeap, within, within'⟩
        exact same frame (inv.taken ▸ inHeap) place within within'
      refine ⟨inv.other space total used same, rfl, rfl, fun b member => ?_, fun h stale => ?_⟩
      · exact (header_congr fun place low high => inside b member place low (by omega)).1
      · exact stale.congr fun b member _ => inside b member

theorem SessionInv.quiet_run {session next : Session} (inv : SessionInv session reserved layout)
    (run : Relation.ReflTransGen (Session.Quiet reserved) session next) :
    SessionInv next reserved layout ∧ KeepsHeaders layout session next := by
  induction run with
  | refl => exact ⟨inv, rfl, rfl, fun _ _ => rfl, fun _ stale => stale⟩
  | tail _ quiet inductionHypothesis =>
      rcases inductionHypothesis with ⟨inv', keeps⟩
      rcases inv'.quiet quiet with ⟨inv'', keeps'⟩
      exact ⟨inv'', keeps.trans keeps'⟩

/-! ## Runs -/

theorem SessionInv.step {session next : Session} (inv : SessionInv session reserved layout)
    (step : Session.Step reserved session next) : ∃ after, SessionInv next reserved after := by
  cases step with
  | call call result heap allowed returns =>
      exact (inv.call_returned allowed returns).imp fun _ called => called.1
  | write ptr assign member only => exact ⟨layout, inv.write member only⟩
  | other phys space total used same => exact ⟨layout, inv.other space total used same⟩

theorem reachable_inv {phys : PhysState} {offset : Nat} {session : Session}
    (space : FrameSpace phys offset reserved)
    (reachable : Session.Reachable reserved offset phys session) :
    ∃ layout, SessionInv session reserved layout := by
  induction reachable with
  | refl =>
      refine ⟨_, heapInit_inv space, rfl, ?_, fun _ member => absurd member (Finset.notMem_empty _)⟩
      ext frame
      simp [Layout.frames, regionFrames]
  | tail _ step inductionHypothesis =>
      rcases inductionHypothesis with ⟨layout, inv⟩
      exact inv.step step

/-! ## Structural safety -/

/-- The heap is what it should be: the regions are the frames that `grow_heap`
has taken and each is tiled by one linked chain of blocks, the free list
consists of the free blocks, the payloads that are held do not overlap, and the
two totals are exact. -/
structure WellFormed (session : Session) (layout : Layout) : Prop where
  taken_eq : session.taken = layout.frames session.heap.physOffset
  runs : ∀ r ∈ layout.regions, ∃ first count, 0 < count ∧
    r = frameRegion session.heap.physOffset first count
  regions_apart : ∀ r ∈ layout.regions, ∀ t ∈ layout.regions, r ≠ t →
    r.stop ≤ t.start ∨ t.stop ≤ r.start
  tiled : ∀ r ∈ layout.regions, ∃ chain,
    Linked (Block.next session.heap.mem) (Block.prev session.heap.mem) 0 r.start chain ∧
      Adjacent headerSize (tagOf session.heap.mem) r.start r.stop chain ∧
      ∀ b, b ∈ chain ↔ b ∈ layout.blocks ∧ r.start ≤ b ∧ b < r.stop
  covered : ∀ b ∈ layout.blocks, ∃ r ∈ layout.regions, r.start ≤ b ∧
    b + headerSize + Block.size session.heap.mem b ≤ r.stop
  grain : ∀ b ∈ layout.blocks, 8 ∣ Block.size session.heap.mem b
  free_linked : Linked (Block.nextFree session.heap.mem) (Block.prevFree session.heap.mem) 0
    session.heap.freeHead layout.nodes
  free_nodup : layout.nodes.Nodup
  free_iff : ∀ b, b ∈ layout.nodes ↔ b ∈ layout.blocks ∧ Block.used session.heap.mem b = 0
  held_iff : ∀ ptr, ptr ∈ session.held ↔
    ∃ b ∈ layout.blocks, Block.used session.heap.mem b ≠ 0 ∧ ptr = b + headerSize
  payloads_apart : ∀ ptr ∈ session.held, ∀ ptr' ∈ session.held, ptr ≠ ptr' →
    ptr + payloadSize session.heap.mem ptr ≤ ptr' ∨ ptr' + payloadSize session.heap.mem ptr' ≤ ptr
  used_eq : heapGetUsed session.heap = ∑ ptr ∈ session.held, payloadSize session.heap.mem ptr
  free_eq : heapGetFree session.heap =
    some (∑ b ∈ layout.nodes.toFinset, Block.size session.heap.mem b)
  total_eq : ∑ ptr ∈ session.held, payloadSize session.heap.mem ptr +
    ∑ b ∈ layout.nodes.toFinset, Block.size session.heap.mem b +
      headerSize * layout.blocks.card = ∑ r ∈ layout.regions, (r.stop - r.start)

theorem HeapInv.freeSum_eq (inv : HeapInv s reserved layout) :
    freeSum (tagOf s.mem) layout.blocks = ∑ b ∈ layout.nodes.toFinset, Block.size s.mem b := by
  unfold freeSum
  refine Finset.sum_congr ?_ fun _ _ => rfl
  ext b
  rw [List.mem_toFinset, inv.free_iff, Finset.mem_filter]
  exact and_congr_right fun _ => not_not

theorem usedSum_eq (layout : Layout) (mem : Mem) :
    usedSum (tagOf mem) layout.blocks = ∑ ptr ∈ layout.pointers mem, payloadSize mem ptr := by
  unfold Layout.pointers
  rw [Finset.sum_image fun _ _ _ _ same => add_header_injective same]
  exact Finset.sum_congr rfl fun b _ => (payloadSize_add mem b).symm

theorem HeapInv.payloads_apart (inv : HeapInv s reserved layout) {ptr ptr' : Nat}
    (member : ptr ∈ layout.pointers s.mem) (member' : ptr' ∈ layout.pointers s.mem)
    (different : ptr ≠ ptr') :
    ptr + payloadSize s.mem ptr ≤ ptr' ∨ ptr' + payloadSize s.mem ptr' ≤ ptr := by
  rcases Layout.mem_pointers.mp member with ⟨b, live, rfl⟩
  rcases Layout.mem_pointers.mp member' with ⟨c, live', rfl⟩
  rw [payloadSize_add, payloadSize_add]
  have bMem := (mem_usedBlocks.mp live).1
  have cMem := (mem_usedBlocks.mp live').1
  have apart := inv.blocks_apart bMem cMem (fun same => different (congrArg (· + headerSize) same))
  omega

theorem SessionInv.wellFormed {session : Session} (inv : SessionInv session reserved layout) :
    WellFormed session layout := by
  rcases inv with ⟨heapInv, held, taken, merged⟩
  constructor
  case taken_eq => exact taken
  case runs =>
    intro r rMem
    rcases heapInv.runs r rMem with ⟨first, count, shape, positive, _⟩
    exact ⟨first, count, positive, shape⟩
  case regions_apart => exact heapInv.tiling.regions_apart
  case tiled => exact fun r rMem => heapInv.tiling.chain (by decide) rMem
  case covered => exact fun b member => heapInv.block_place member
  case grain => exact heapInv.tiling.grain_dvd
  case free_linked => exact heapInv.freeList.linked
  case free_nodup => exact heapInv.freeList.distinct
  case free_iff => exact heapInv.free_iff
  case held_iff =>
    intro ptr
    rw [held, Layout.mem_pointers]
    exact exists_congr fun b => by
      unfold Layout.live
      rw [mem_usedBlocks, and_assoc]
      rfl
  case payloads_apart =>
    rw [held]
    exact fun ptr member ptr' member' different => heapInv.payloads_apart member member' different
  case used_eq =>
    rw [held, ← usedSum_eq]
    exact heapInv.accounted
  case free_eq => rw [heapInv.heapGetFree_eq, heapInv.freeSum_eq]
  case total_eq =>
    rw [held, ← usedSum_eq, ← heapInv.freeSum_eq, usedSum_add_freeSum]
    exact heapInv.extent

/-- In every session a new heap can reach, the heap is well-formed, and every
call that its callers may make returns and writes to no payload that is held
before and after it. -/
theorem reachable_wellFormed {phys : PhysState} {offset : Nat} {session : Session}
    (space : FrameSpace phys offset reserved)
    (reachable : Session.Reachable reserved offset phys session) :
    ∃ layout, WellFormed session layout ∧
      ∀ call : Call, call.Allowed session.held →
        ∃ result heap, call.run session.heap = some (result, heap) ∧
          KeepsPayloads session (session.after call result heap) := by
  rcases reachable_inv space reachable with ⟨layout, inv⟩
  refine ⟨layout, inv.wellFormed, fun call allowed => ?_⟩
  rcases inv.call call allowed with ⟨result, heap, _, returned, _, keeps⟩
  exact ⟨result, heap, returned, keeps⟩

end Steps

/-! ## The heap of the kernel -/

/-- A machine of eight frames whose kernel image ends in the first one. -/
def smallMachine : PhysState := kernelMainPmm 32768 4000 ⟨fun _ => 0, ⟨0, 0, 0, 0⟩⟩

theorem smallMachine_space :
    FrameSpace smallMachine 0 {frame | frame < reservedFrames (ramSize 32768) 4000} :=
  frameSpace_setupPmm _ (by decide) (by decide) (imageFits_of_le (by decide) (by decide))

/-- A first call of `kmalloc` on the small machine. -/
theorem smallMachine_kmalloc :
    ∃ first, Heap.kmalloc 100 (heapInit 0 smallMachine) = some (8240, first) ∧
      first.freeHead = 8344 ∧
      Session.Reachable {frame | frame < reservedFrames (ramSize 32768) 4000} 0 smallMachine
        (Session.after ⟨heapInit 0 smallMachine, ∅, ∅⟩ (.kmalloc 100) 8240 first) := by
  have result : (Heap.kmalloc 100 (heapInit 0 smallMachine)).map
      (fun result => (result.1, result.2.freeHead)) = some (8240, 8344) := by
    decide +kernel
  rcases Option.map_eq_some_iff.mp result with ⟨⟨ptr, first⟩, returned, same⟩
  rcases Prod.mk.inj same with ⟨rfl, head⟩
  exact ⟨first, returned, head, Relation.ReflTransGen.single (@Session.Step.call _
    ⟨heapInit 0 smallMachine, ∅, ∅⟩ (.kmalloc 100) _ first trivial returned)⟩

/-- On it the first block handed out is behind the header at the first frame
that is not reserved. -/
theorem reachable_wellFormed_small :
    ∃ heap layout, (Call.kmalloc 100).run (heapInit 0 smallMachine) = some (8240, heap) ∧
      WellFormed (Session.after ⟨heapInit 0 smallMachine, ∅, ∅⟩ (.kmalloc 100) 8240 heap)
        layout := by
  rcases smallMachine_kmalloc with ⟨heap, returned, _, reachable⟩
  rcases reachable_wellFormed smallMachine_space reachable with ⟨layout, wellFormed, _⟩
  exact ⟨heap, layout, returned, wellFormed⟩

end Heap
end AuraKernel
