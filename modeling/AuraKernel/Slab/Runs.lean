import AuraKernel.Slab.Zones
import Mathlib.Logic.Relation

namespace AuraKernel
namespace Slab

open Machine
open Physical

/-!
# Runs of the slab allocator

A session is the allocator with the chunks its callers hold, zone by zone, and
the pages each zone has taken.  Between two calls a caller may write into its
chunks, and the rest of the kernel may do anything that leaves the pages of the
zones alone.
-/

/-- A slab allocator with the chunks in use and the pages of each zone. -/
structure Session where
  slab : SlabState
  live : Fin 8 → Finset Nat
  taken : Fin 8 → Set Nat

/-- The chunks in use after `zalloc(size)` has returned `result`. -/
def handOut (live : Fin 8 → Finset Nat) (size result : Nat) : Fin 8 → Finset Nat :=
  if result = 0 then live
  else
    match sizeToZoneIndex size with
    | none => live
    | some i => Function.update live i (insert result (live i))

/-- The chunks in use after `zfree(ptr, size)`. -/
def giveBack (live : Fin 8 → Finset Nat) (ptr size : Nat) : Fin 8 → Finset Nat :=
  if ptr = 0 ∨ size = 0 then live
  else
    match sizeToZoneIndex size with
    | none => live
    | some i => Function.update live i ((live i).erase ptr)

/-- A caller gives back NULL or a chunk of the class of `size`; for a size
without a class the call does nothing. -/
def FreeAllowed (live : Fin 8 → Finset Nat) (ptr size : Nat) : Prop :=
  ptr = 0 ∨ size = 0 ∨ ∀ i, sizeToZoneIndex size = some i → ptr ∈ live i

/-- The session after `zalloc(size)`. -/
def Session.zalloc (s : Session) (size : Nat) : Session where
  slab := (Slab.zalloc size s.slab).2
  live := handOut s.live size (Slab.zalloc size s.slab).1
  taken := fun i => s.taken i ∪ {frame | sizeToZoneIndex size = some i ∧
    frame < s.slab.phys.pmm.totalFrames ∧ s.slab.phys.Free frame ∧
      (Slab.zalloc size s.slab).2.phys.Used frame}

/-- The session after `zfree(ptr, size)`. -/
def Session.zfree (s : Session) (ptr size : Nat) : Session where
  slab := Slab.zfree ptr size s.slab
  live := giveBack s.live ptr size
  taken := s.taken

inductive Session.Step (reserved : Set Nat) : Session → Session → Prop
  | zalloc {s : Session} (size : Nat) : Step reserved s (s.zalloc size)
  | zfree {s : Session} (ptr size : Nat) (allowed : FreeAllowed s.live ptr size) :
      Step reserved s (s.zfree ptr size)
  | write {s : Session} (i : Fin 8) (c : Nat) (member : c ∈ s.live i) (mem : Mem)
      (only : ∀ place, (place < c ∨ c + zoneChunkSize i ≤ place) → mem place = s.slab.mem place) :
      Step reserved s { s with slab := s.slab.setMem mem }
  | other {s : Session} (phys : PhysState) (space : FrameSpace phys s.slab.physOffset reserved)
      (total : phys.pmm.totalFrames = s.slab.phys.pmm.totalFrames)
      (used : ∀ i, ∀ page ∈ s.taken i, phys.Used page)
      (same : ∀ i, ∀ page ∈ s.taken i, ∀ place, inPage s.slab.physOffset page place →
        phys.mem place = s.slab.mem place) :
      Step reserved s { s with slab := { s.slab with phys := phys } }

/-- The sessions that a new allocator can reach. -/
def Session.Reachable (reserved : Set Nat) (offset : Nat) (phys : PhysState) : Session → Prop :=
  Relation.ReflTransGen (Session.Step reserved)
    { slab := slabInit offset phys, live := fun _ => ∅, taken := fun _ => ∅ }

section Calls

variable {s : SlabState} {reserved : Set Nat} {layout after : SlabLayout} {i : Fin 8}

/-! ## The calls -/

/-- `slab_init` starts with empty zones. -/
theorem slabInit_inv {phys : PhysState} {offset : Nat} (space : FrameSpace phys offset reserved)
    (aligned : offset % slabPageSize = 0) :
    SlabInv (slabInit offset phys) reserved
      { pages := fun _ => ∅, nodes := fun _ => [], live := fun _ => ∅ } where
  space := space
  offset_aligned := aligned
  zone := fun i => by
    constructor
    case chunkSize => rfl
    case chain => rfl
    case nodup => exact List.nodup_nil
    case chunk_iff => simp [mem_chunks]
    case apart => simp
    case owned => simp
    case count => rfl
  pages_apart := by simp

/-- The result of a call of `zalloc` for a size. -/
structure Serves (s s' : SlabState) (reserved : Set Nat) (layout after : SlabLayout)
    (size result : Nat) : Prop where
  inv : SlabInv s' reserved after
  effect : SlabEffect s s' layout after
  live_eq : after.live = handOut layout.live size result
  pages_eq : ∀ i, sizeToZoneIndex size ≠ some i → after.pages i = layout.pages i
  served : result ≠ 0 → ∃ i, sizeToZoneIndex size = some i ∧ result ∉ layout.live i ∧
    result ∈ after.live i
  refused : result = 0 → s' = s ∧ ∀ i, size ≠ 0 → sizeToZoneIndex size = some i →
    (s.zones i).freeList = 0 ∧ ∀ frame, frame < s.phys.pmm.totalFrames → s.phys.Used frame

theorem SlabInv.serves_nothing (inv : SlabInv s reserved layout) {size : Nat}
    (cause : ∀ i, size ≠ 0 → sizeToZoneIndex size = some i → (s.zones i).freeList = 0 ∧
      ∀ frame, frame < s.phys.pmm.totalFrames → s.phys.Used frame) :
    Serves s s reserved layout layout size 0 where
  inv := inv
  effect := SlabEffect.refl inv
  live_eq := (if_pos rfl).symm
  pages_eq := fun _ _ => rfl
  served := fun nonzero => absurd rfl nonzero
  refused := fun _ => ⟨rfl, cause⟩

/-- Popping a chunk after a step that has left the chunks in use alone. -/
theorem SlabInv.serves_pop {s' : SlabState} {middle : SlabLayout} {size : Nat}
    (inv : SlabInv s' reserved middle) (effect : SlabEffect s s' layout middle)
    (live : middle.live = layout.live) (pages : ∀ j, j ≠ i → middle.pages j = layout.pages j)
    (found : sizeToZoneIndex size = some i) (nonempty : (s'.zones i).freeList ≠ 0) :
    ∃ after, Serves s (popChunk i s').2 reserved layout after size (popChunk i s').1 := by
  cases shape : middle.nodes i with
  | nil =>
      have chain := (inv.zone i).chain
      rw [shape] at chain
      exact absurd chain nonempty
  | cons c rest =>
      rcases inv.pop shape with ⟨head, fresh, inv'⟩
      have nonzero : c ≠ 0 := fun null => nonempty (head.trans null)
      refine ⟨_, inv', effect.trans (inv.pop_effect _ _) ?_, ?_, ?_, ?_, ?_⟩
      · intro j d before _
        rw [live]
        exact before
      · rw [head]
        unfold handOut
        rw [if_neg nonzero, found, ← live]
        rfl
      · intro j different
        rw [SlabLayout.set_pages]
        exact pages j fun same => different (same ▸ found)
      · intro _
        rw [head, ← live]
        refine ⟨i, found, fresh, ?_⟩
        rw [(middle.set_self i _ _ _).2.2]
        exact Finset.mem_insert_self _ _
      · rw [head]
        exact fun null => absurd null nonzero

theorem SlabInv.zalloc_spec (inv : SlabInv s reserved layout) (size : Nat) :
    ∃ after, Serves s (Slab.zalloc size s).2 reserved layout after size (Slab.zalloc size s).1 := by
  unfold Slab.zalloc
  by_cases empty : size = 0
  · rw [if_pos empty]
    exact ⟨layout, inv.serves_nothing fun _ nonzero => absurd empty nonzero⟩
  rw [if_neg empty]
  cases found : sizeToZoneIndex size with
  | none =>
      refine ⟨layout, inv.serves_nothing fun i _ some => ?_⟩
      rw [found] at some
      cases some
  | some i =>
      dsimp only
      by_cases nonempty : (s.zones i).freeList = 0
      · rw [if_pos nonempty]
        rcases inv.zoneRefill_cases i with ⟨failed, full⟩ | ⟨page, refills⟩
        · rw [failed, if_pos nonempty]
          refine ⟨layout, inv.serves_nothing fun j _ same => ?_⟩
          rw [found] at same
          injection same with same
          subst same
          exact ⟨nonempty, full⟩
        · have newHead : ((zoneRefill i s).zones i).freeList ≠ 0 := by
            intro null
            have noNodes := (refills.chain.current_eq_zero_iff).mp null
            have member : s.physOffset + page * slabPageSize + 0 * zoneChunkSize i ∈
                carved (s.physOffset + page * slabPageSize) (zoneChunkSize i)
                  (slabPageSize / zoneChunkSize i) :=
              mem_carved.mpr ⟨0, (zoneChunkSize_facts i).2.2.2, rfl⟩
            rw [(List.append_eq_nil_iff.mp noNodes).1] at member
            exact List.not_mem_nil member
          rw [if_neg newHead]
          refine (refills.inv inv).serves_pop (refills.effect inv) ?_ ?_ found newHead
          · exact Function.update_eq_self i layout.live
          · exact fun j different => (layout.set_of_ne i _ _ _ different).1
      · rw [if_neg nonempty]
        exact inv.serves_pop (SlabEffect.refl inv) rfl (fun _ _ => rfl) found nonempty

theorem SlabInv.zfree_spec (inv : SlabInv s reserved layout) {ptr size : Nat}
    (allowed : FreeAllowed layout.live ptr size) :
    ∃ after, SlabInv (Slab.zfree ptr size s) reserved after ∧
      SlabEffect s (Slab.zfree ptr size s) layout after ∧
      after.live = giveBack layout.live ptr size ∧ after.pages = layout.pages := by
  unfold Slab.zfree giveBack
  by_cases idle : ptr = 0 ∨ size = 0
  · rw [if_pos idle, if_pos idle]
    exact ⟨layout, inv, SlabEffect.refl inv, rfl, rfl⟩
  rw [if_neg idle, if_neg idle]
  cases found : sizeToZoneIndex size with
  | none => exact ⟨layout, inv, SlabEffect.refl inv, rfl, rfl⟩
  | some i =>
      rw [not_or] at idle
      have live : ptr ∈ layout.live i :=
        ((allowed.resolve_left idle.1).resolve_left idle.2) i found
      exact ⟨_, inv.push live, inv.push_effect live _, rfl, SlabLayout.set_pages _ _ _ _⟩

end Calls

/-! ## Sessions -/

structure SessionInv (session : Session) (reserved : Set Nat) (layout : SlabLayout) : Prop where
  slab : SlabInv session.slab reserved layout
  live : session.live = layout.live
  taken : ∀ i frame, frame ∈ session.taken i ↔ frame ∈ layout.pages i

/-- What a call from `before` to `after` leaves alone: the chunks in use on both sides. -/
def KeepsChunks (before after : Session) : Prop :=
  ∀ i, ∀ c ∈ before.live i, c ∈ after.live i → ∀ place, c ≤ place →
    place < c + zoneChunkSize i → after.slab.mem place = before.slab.mem place

section Sessions

variable {session : Session} {reserved : Set Nat} {layout : SlabLayout}

/-- A call of `zalloc` keeps the invariant. -/
theorem SessionInv.zalloc (inv : SessionInv session reserved layout) (size : Nat) :
    ∃ after, SessionInv (session.zalloc size) reserved after ∧
      SlabEffect session.slab (session.zalloc size).slab layout after := by
  rcases inv with ⟨slab, live, taken⟩
  rcases slab.zalloc_spec size with ⟨after, serves⟩
  have effect := serves.effect
  have live' : (session.zalloc size).live = after.live := by
    unfold Session.zalloc
    rw [serves.live_eq, live]
  refine ⟨after, ⟨serves.inv, live', ?_⟩, effect⟩
  intro i frame
  simp only [Session.zalloc, Set.mem_union, Set.mem_ofPred_eq, taken]
  constructor
  · rintro (old | ⟨found, bound, free, used⟩)
    · exact effect.pages_le i old
    · rcases (effect.used_iff frame bound).mp used with before | ⟨j, member⟩
      · exact absurd free ((PhysState.not_free_iff _ _).mpr before)
      · -- the pages of the other zones have not changed
        by_cases same : j = i
        · exact same ▸ member
        · have different : sizeToZoneIndex size ≠ some j := fun other =>
            same (Option.some.inj (other.symm.trans found))
          rw [serves.pages_eq j different] at member
          exact absurd ((slab.zone j).owned frame member).2.1
            ((PhysState.not_used_iff _ _).mpr free)
  · intro inAfter
    rcases effect.new_free i frame inAfter with old | ⟨bound, free⟩
    · exact Or.inl old
    · refine Or.inr ⟨?_, bound, free, (effect.used_iff frame bound).mpr (Or.inr ⟨i, inAfter⟩)⟩
      by_contra different
      rw [serves.pages_eq i different] at inAfter
      exact (PhysState.not_used_iff _ _).mpr free ((slab.zone i).owned frame inAfter).2.1

/-- A call of `zfree` keeps the invariant. -/
theorem SessionInv.zfree (inv : SessionInv session reserved layout) {ptr size : Nat}
    (allowed : FreeAllowed session.live ptr size) :
    ∃ after, SessionInv (session.zfree ptr size) reserved after ∧
      SlabEffect session.slab (session.zfree ptr size).slab layout after := by
  rcases inv with ⟨slab, live, taken⟩
  rw [live] at allowed
  rcases slab.zfree_spec allowed with ⟨after, slab', effect, live', pages⟩
  have liveEq : (session.zfree ptr size).live = after.live := by
    unfold Session.zfree
    rw [live', live]
  refine ⟨after, ⟨slab', liveEq, fun i frame => ?_⟩, effect⟩
  rw [pages]
  exact taken i frame

/-- A call leaves the chunks in use on both sides alone. -/
theorem SlabEffect.keepsChunks {next : Session} {after : SlabLayout}
    (effect : SlabEffect session.slab next.slab layout after)
    (inv : SessionInv session reserved layout)
    (inv' : SessionInv next reserved after) : KeepsChunks session next := by
  intro i c before afterwards place low high
  rw [inv.live] at before
  rw [inv'.live] at afterwards
  exact effect.kept i c before afterwards place low high

/-- A caller's own writes keep the invariant. -/
theorem SessionInv.write (inv : SessionInv session reserved layout) {i : Fin 8} {c : Nat}
    (member : c ∈ session.live i) {mem : Mem}
    (only : ∀ place, (place < c ∨ c + zoneChunkSize i ≤ place) →
      mem place = session.slab.mem place) :
    SessionInv { session with slab := session.slab.setMem mem } reserved layout := by
  rcases inv with ⟨slab, live, taken⟩
  rw [live] at member
  have chunk := slab.live_mem member
  have bitmap : ∀ place ∈ session.slab.phys.bitmapBytes, mem place = session.slab.mem place := by
    intro place inBitmap
    refine only place ?_
    by_contra inside
    exact slab.not_bitmap chunk (by omega) (by omega) inBitmap
  refine ⟨?_, live, taken⟩
  refine slab.frame (slab.space.congr rfl bitmap) rfl ?_ ?_ rfl rfl
  · intro j page pageMem used
    exact (@used_congr session.slab.phys (session.slab.setMem mem).phys rfl bitmap page
      ((slab.zone j).owned page pageMem).1).mpr used
  · intro j d node
    have wide := (zoneChunkSize_facts j).1
    have different : i ≠ j ∨ c ≠ d := by
      by_cases same : i = j
      · subst same
        exact Or.inr fun equal => (slab.zone i).apart d node (equal ▸ member)
      · exact Or.inl same
    refine Mem.load64_congr fun place low high => only place ?_
    rcases slab.chunks_apart chunk (slab.node_mem node) different with before | behind <;> omega

/-- What the rest of the kernel does keeps the invariant. -/
theorem SessionInv.other (inv : SessionInv session reserved layout) {phys : PhysState}
    (space : FrameSpace phys session.slab.physOffset reserved)
    (total : phys.pmm.totalFrames = session.slab.phys.pmm.totalFrames)
    (used : ∀ i, ∀ page ∈ session.taken i, phys.Used page)
    (same : ∀ i, ∀ page ∈ session.taken i, ∀ place, inPage session.slab.physOffset page place →
      phys.mem place = session.slab.mem place) :
    SessionInv { session with slab := { session.slab with phys := phys } } reserved layout := by
  rcases inv with ⟨slab, live, taken⟩
  refine ⟨slab.frame space total ?_ ?_ rfl rfl, live, taken⟩
  · exact fun i page member _ => used i page ((taken i page).mpr member)
  · intro i c node
    rcases chunk_place (slab.node_mem node) with ⟨page, member, low, high⟩
    have wide := (zoneChunkSize_facts i).1
    exact Mem.load64_congr fun place atLeast below =>
      same i page ((taken i page).mpr member) place ⟨by omega, by omega⟩

theorem SessionInv.step {next : Session} (inv : SessionInv session reserved layout)
    (step : Session.Step reserved session next) : ∃ after, SessionInv next reserved after := by
  cases step with
  | zalloc size => exact (inv.zalloc size).imp fun _ called => called.1
  | zfree ptr size allowed => exact (inv.zfree allowed).imp fun _ called => called.1
  | write i c member mem only => exact ⟨layout, inv.write member only⟩
  | other phys space total used same => exact ⟨layout, inv.other space total used same⟩

theorem reachable_inv {phys : PhysState} {offset : Nat} (space : FrameSpace phys offset reserved)
    (aligned : offset % slabPageSize = 0)
    (reachable : Session.Reachable reserved offset phys session) :
    ∃ layout, SessionInv session reserved layout := by
  induction reachable with
  | refl =>
      exact ⟨_, slabInit_inv space aligned, rfl, fun _ _ =>
        iff_of_false (Set.notMem_empty _) (Finset.notMem_empty _)⟩
  | tail _ step inductionHypothesis =>
      rcases inductionHypothesis with ⟨layout, inv⟩
      exact inv.step step

/-! ## Integrity -/

/-- The zones are what they should be: a free list without repetitions, which
together with the chunks in use makes up the chunks of the zone's pages. -/
structure Integrity (session : Session) (pages : Fin 8 → Finset Nat) (nodes : Fin 8 → List Nat) :
    Prop where
  taken_eq : ∀ i, session.taken i = ↑(pages i)
  linked : ∀ i, Chain session.slab.mem.load64 (session.slab.zones i).freeList (nodes i)
  nodup : ∀ i, (nodes i).Nodup
  free_not_live : ∀ i, ∀ c ∈ nodes i, c ∉ session.live i
  chunk_iff : ∀ i c, c ∈ nodes i ∨ c ∈ session.live i ↔
    ∃ page ∈ pages i, ∃ k, k < slabPageSize / zoneChunkSize i ∧
      c = session.slab.physOffset + page * slabPageSize + k * zoneChunkSize i
  aligned : ∀ i c, c ∈ nodes i ∨ c ∈ session.live i → c % zoneChunkSize i = 0
  allocCount : ∀ i, (session.slab.zones i).allocCount = (pages i).card
  conserved : ∀ i, (nodes i).length + (session.live i).card =
    (session.slab.zones i).allocCount * (slabPageSize / zoneChunkSize i)
  chunks_apart : ∀ i j c d, (c ∈ nodes i ∨ c ∈ session.live i) →
    (d ∈ nodes j ∨ d ∈ session.live j) →
    (i ≠ j ∨ c ≠ d) → c + zoneChunkSize i ≤ d ∨ d + zoneChunkSize j ≤ c

theorem SlabInv.card_eq {s : SlabState} (inv : SlabInv s reserved layout) (i : Fin 8) :
    (layout.nodes i).length + (layout.live i).card =
      (layout.pages i).card * (slabPageSize / zoneChunkSize i) := by
  have zone := inv.zone i
  have together : chunks s.physOffset (zoneChunkSize i) (layout.pages i) =
      (layout.nodes i).toFinset ∪ layout.live i := by
    ext c
    rw [Finset.mem_union, List.mem_toFinset]
    exact (zone.chunk_iff c).symm
  have disjoint : Disjoint (layout.nodes i).toFinset (layout.live i) :=
    Finset.disjoint_left.mpr fun c node => zone.apart c (List.mem_toFinset.mp node)
  rw [← card_chunks, together, Finset.card_union_of_disjoint disjoint,
    List.toFinset_card_of_nodup zone.nodup]

theorem SessionInv.integrity (inv : SessionInv session reserved layout) :
    Integrity session layout.pages layout.nodes := by
  rcases inv with ⟨slab, live, taken⟩
  constructor
  case taken_eq => exact fun i => Set.ext fun frame => taken i frame
  case linked => exact fun i => (slab.zone i).chain
  case nodup => exact fun i => (slab.zone i).nodup
  case free_not_live =>
    rw [live]
    exact fun i => (slab.zone i).apart
  case chunk_iff =>
    rw [live]
    exact fun i c => ((slab.zone i).chunk_iff c).trans mem_chunks
  case aligned =>
    rw [live]
    exact fun i c member =>
      chunk_aligned slab.offset_aligned (((slab.zone i).chunk_iff c).mp member)
  case allocCount => exact fun i => (slab.zone i).count
  case conserved =>
    intro i
    rw [live, (slab.zone i).count]
    exact slab.card_eq i
  case chunks_apart =>
    rw [live]
    exact fun i j c d member member' => slab.chunks_apart (((slab.zone i).chunk_iff c).mp member)
      (((slab.zone j).chunk_iff d).mp member')

/-- What `zalloc(size)` returns: a chunk that is large enough and meets no chunk
in use, or NULL.  For a size that has a zone, NULL means that the free list of
the zone is empty and no frame is free; nothing has changed then. -/
def ServesOrRefuses (session : Session) (size : Nat) : Prop :=
  let (result, slab) := Slab.zalloc size session.slab
  (result ≠ 0 → ∃ i, sizeToZoneIndex size = some i ∧ size ≤ zoneChunkSize i ∧
    result ∈ (session.zalloc size).live i ∧
    ∀ j, ∀ d ∈ session.live j, result + zoneChunkSize i ≤ d ∨ d + zoneChunkSize j ≤ result) ∧
  (result = 0 → slab = session.slab ∧ (1 ≤ size → size ≤ 2048 →
    ∃ i, sizeToZoneIndex size = some i ∧ (session.slab.zones i).freeList = 0 ∧
      (pmmAllocFrame session.slab.phys).1 = 0 ∧
      ∀ frame, frame < session.slab.phys.pmm.totalFrames → session.slab.phys.Used frame))

/-- Without a free frame `pmm_alloc_frame` returns 0. -/
theorem allocFrame_of_full {s : SlabState} (inv : SlabInv s reserved layout)
    (full : ∀ frame, frame < s.phys.pmm.totalFrames → s.phys.Used frame) :
    (pmmAllocFrame s.phys).1 = 0 := by
  rcases inv.space.allocFrame with ⟨failed, _⟩ | ⟨frame, bound, free, _⟩
  · rw [failed]
  · exact absurd free ((PhysState.not_free_iff _ _).mpr (full frame bound))

theorem SessionInv.serves (inv : SessionInv session reserved layout) (size : Nat) :
    ServesOrRefuses session size := by
  rcases inv with ⟨slab, live, taken⟩
  rcases slab.zalloc_spec size with ⟨after, serves⟩
  unfold ServesOrRefuses
  dsimp only
  constructor
  · intro nonzero
    rcases serves.served nonzero with ⟨i, found, fresh, member⟩
    refine ⟨i, found, sizeToZoneIndex_le found, ?_, ?_⟩
    · simp only [Session.zalloc]
      rw [live, ← serves.live_eq]
      exact member
    · intro j d isLive
      rw [live] at isLive
      -- the new chunk and the old one are two chunks of the resulting allocator
      have still : d ∈ after.live j := by
        rw [serves.live_eq]
        unfold handOut
        rw [if_neg nonzero, found]
        dsimp only
        by_cases same : j = i
        · subst same
          rw [Function.update_self]
          exact Finset.mem_insert_of_mem isLive
        · rw [Function.update_of_ne same]
          exact isLive
      have different : i ≠ j ∨ (Slab.zalloc size session.slab).1 ≠ d := by
        by_cases same : i = j
        · subst same
          exact Or.inr fun equal => fresh (equal ▸ isLive)
        · exact Or.inl same
      exact serves.inv.chunks_apart (serves.inv.live_mem member) (serves.inv.live_mem still)
        different
  · intro null
    rcases serves.refused null with ⟨same, cause⟩
    refine ⟨same, fun positive small => ?_⟩
    rcases sizeToZoneIndex_isSome small with ⟨i, found⟩
    rcases cause i (by omega) found with ⟨empty, full⟩
    exact ⟨i, found, empty, allocFrame_of_full slab full, full⟩

/-- In every session a new slab allocator can reach, the zones are intact, every
call of `zalloc` serves or refuses as it should, and no call that the callers
may make writes into a chunk that is in use before and after it. -/
theorem reachable_integrity {phys : PhysState} {offset : Nat}
    (space : FrameSpace phys offset reserved) (aligned : offset % slabPageSize = 0)
    (reachable : Session.Reachable reserved offset phys session) :
    (∃ pages nodes, Integrity session pages nodes) ∧
      (∀ size, ServesOrRefuses session size ∧ KeepsChunks session (session.zalloc size)) ∧
      ∀ ptr size, FreeAllowed session.live ptr size →
        KeepsChunks session (session.zfree ptr size) := by
  rcases reachable_inv space aligned reachable with ⟨layout, inv⟩
  refine ⟨⟨_, _, inv.integrity⟩, fun size => ⟨inv.serves size, ?_⟩, ?_⟩
  · rcases inv.zalloc size with ⟨after, inv', effect⟩
    exact effect.keepsChunks inv inv'
  · intro ptr size allowed
    rcases inv.zfree allowed with ⟨after, inv', effect⟩
    exact effect.keepsChunks inv inv'

end Sessions

/-- A machine of eight frames whose kernel image ends in the first one, after two chunks of the
class of 100 bytes were handed out and the first one was given back. -/
theorem reachable_integrity_small :
    let start : Session :=
      ⟨slabInit 0 (kernelMainPmm 32768 4000 ⟨fun _ => 0, ⟨0, 0, 0, 0⟩⟩), fun _ => ∅, fun _ => ∅⟩
    let session := ((start.zalloc 100).zalloc 100).zfree 12160 100
    (zalloc 100 start.slab).1 = 12160 ∧ (zalloc 100 (start.zalloc 100).slab).1 = 12032 ∧
      session.live 3 = {12032} ∧ (∃ pages nodes, Integrity session pages nodes) ∧
      ServesOrRefuses session 100 := by
  intro start session
  have space : FrameSpace (kernelMainPmm 32768 4000 ⟨fun _ => 0, ⟨0, 0, 0, 0⟩⟩) 0
      {frame | frame < reservedFrames (ramSize 32768) 4000} :=
    frameSpace_setupPmm _ (by decide) (by decide) (imageFits_of_le (by decide) (by decide))
  have first : (zalloc 100 start.slab).1 = 12160 := by decide +kernel
  have second : (zalloc 100 (start.zalloc 100).slab).1 = 12032 := by decide +kernel
  have zone : sizeToZoneIndex 100 = some 3 := by decide
  have handed : ((start.zalloc 100).zalloc 100).live 3 = {12032, 12160} := by
    change handOut (handOut (fun _ => ∅) 100 (zalloc 100 start.slab).1) 100
      (zalloc 100 (start.zalloc 100).slab).1 3 = _
    rw [first, second]
    unfold handOut
    rw [zone, if_neg (by decide), if_neg (by decide)]
    rfl
  have allowed : FreeAllowed ((start.zalloc 100).zalloc 100).live 12160 100 := by
    right
    right
    intro i found
    cases zone.symm.trans found
    rw [handed]
    decide
  have live : session.live 3 = {12032} := by
    change giveBack ((start.zalloc 100).zalloc 100).live 12160 100 3 = _
    unfold giveBack
    rw [zone, if_neg (by decide)]
    change Function.update _ 3 _ 3 = _
    rw [Function.update_self, handed]
    decide
  have reachable : Session.Reachable {frame | frame < reservedFrames (ramSize 32768) 4000} 0
      (kernelMainPmm 32768 4000 ⟨fun _ => 0, ⟨0, 0, 0, 0⟩⟩) session :=
    ((Relation.ReflTransGen.single (.zalloc 100)).tail (.zalloc 100)).tail (.zfree 12160 100 allowed)
  rcases reachable_integrity space (by decide) reachable with ⟨intact, sizes, _⟩
  exact ⟨first, second, live, intact, (sizes 100).1⟩

end Slab
end AuraKernel
