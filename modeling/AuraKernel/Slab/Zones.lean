import AuraKernel.Slab.Invariant

namespace AuraKernel
namespace Slab

open Machine
open Physical

/-!
# The operations on a zone

Carving prepends the chunks of a new page to the free list, `zalloc` pops the
head of the list and `zfree` pushes a chunk.  Each is an edit of one zone that
writes only into chunks which are free before or after it.
-/

/-! ## Carving -/

/-- The chunks that the carving loop links, in the order of the list. -/
def carved (base chunkSize : Nat) : Nat → List Nat
  | 0 => []
  | count + 1 => (base + count * chunkSize) :: carved base chunkSize count

section Carving

variable {base chunkSize count c : Nat}

theorem mem_carved :
    c ∈ carved base chunkSize count ↔ ∃ k, k < count ∧ c = base + k * chunkSize := by
  induction count with
  | zero => simp [carved]
  | succ count inductionHypothesis =>
      rw [carved, List.mem_cons, inductionHypothesis]
      constructor
      · rintro (last | ⟨k, bound, place⟩)
        · exact ⟨count, Nat.lt_succ_self count, last⟩
        · exact ⟨k, Nat.lt_succ_of_lt bound, place⟩
      · rintro ⟨k, bound, place⟩
        rcases Nat.lt_succ_iff_lt_or_eq.mp bound with before | rfl
        · exact Or.inr ⟨k, before, place⟩
        · exact Or.inl place

theorem nodup_carved (positive : 0 < chunkSize) : (carved base chunkSize count).Nodup := by
  induction count with
  | zero => exact List.nodup_nil
  | succ count inductionHypothesis =>
      rw [carved, List.nodup_cons]
      refine ⟨?_, inductionHypothesis⟩
      intro member
      rcases mem_carved.mp member with ⟨k, bound, place⟩
      have less := Nat.mul_lt_mul_of_pos_right bound positive
      omega

/-- The loop links the chunks of the page in front of the old list. -/
theorem carve_spec {freeList : Nat} {mem : Mem} {nodes : List Nat} (wide : 8 ≤ chunkSize)
    (nonzero : 0 < base) (top : base + count * chunkSize < 2 ^ 64) (listLt : freeList < 2 ^ 64)
    (chain : Chain mem.load64 freeList nodes)
    (apart : ∀ node ∈ nodes, node + 8 ≤ base ∨ base + count * chunkSize ≤ node) :
    ∃ head mem', carve base chunkSize count (freeList, mem) = (head, mem') ∧
      Chain mem'.load64 head (carved base chunkSize count ++ nodes) ∧ head < 2 ^ 64 ∧
      ∀ place, (place < base ∨ base + count * chunkSize ≤ place) → mem' place = mem place := by
  induction count with
  | zero => exact ⟨freeList, mem, rfl, chain, listLt, fun _ _ => rfl⟩
  | succ count inductionHypothesis =>
      rw [Nat.succ_mul] at top apart
      rcases inductionHypothesis (by omega) fun node member => by
          rcases apart node member with before | behind <;> omega with
        ⟨head, mem', carves, linked, headLt, outside⟩
      refine ⟨base + count * chunkSize, mem'.store64 (base + count * chunkSize) head, ?_,
        ⟨rfl, by omega, ?_⟩, by omega, ?_⟩
      · rw [carve, carves]
      · rw [Mem.load64_store64_same, wrap64_of_lt headLt]
        refine linked.congr fun node member => Mem.load64_store64_disjoint ?_
        rcases List.mem_append.mp member with new | old
        · rcases mem_carved.mp new with ⟨k, bound, rfl⟩
          have less := Nat.mul_le_mul_right chunkSize bound
          rw [Nat.succ_mul] at less
          omega
        · rcases apart node old with before | behind <;> omega
      · intro place away
        rw [Nat.succ_mul] at away
        rw [Mem.store64_apply_of_outside (by omega)]
        exact outside place (by omega)

end Carving

/-! ## Effects -/

/-- What an operation of the slab allocator leaves alone. -/
structure SlabEffect (s s' : SlabState) (layout after : SlabLayout) : Prop where
  bitmap_eq : s'.phys.pmm.bitmap = s.phys.pmm.bitmap
  total_eq : s'.phys.pmm.totalFrames = s.phys.pmm.totalFrames
  physOffset_eq : s'.physOffset = s.physOffset
  used_iff : ∀ frame, frame < s.phys.pmm.totalFrames →
    (s'.phys.Used frame ↔ s.phys.Used frame ∨ ∃ i, frame ∈ after.pages i)
  pages_le : ∀ i, layout.pages i ⊆ after.pages i
  new_free : ∀ i, ∀ page ∈ after.pages i, page ∈ layout.pages i ∨
    page < s.phys.pmm.totalFrames ∧ s.phys.Free page
  outside : ∀ place, place ∉ s.phys.bitmapBytes →
    (∀ i, ∀ page ∈ after.pages i, place < s.physOffset + page * slabPageSize ∨
      s.physOffset + (page + 1) * slabPageSize ≤ place) → s'.mem place = s.mem place
  kept : ∀ i, ∀ c ∈ layout.live i, c ∈ after.live i → ∀ place, c ≤ place →
    place < c + zoneChunkSize i → s'.mem place = s.mem place

section Edits

variable {s s' s'' : SlabState} {reserved : Set Nat} {layout middle after : SlabLayout} {i : Fin 8}
  {c : Nat}

theorem SlabInv.used_of_page (inv : SlabInv s reserved layout) {frame : Nat}
    (owned : ∃ i, frame ∈ layout.pages i) : s.phys.Used frame := by
  rcases owned with ⟨i, member⟩
  exact ((inv.zone i).owned frame member).2.1

theorem SlabEffect.refl (inv : SlabInv s reserved layout) : SlabEffect s s layout layout where
  bitmap_eq := rfl
  total_eq := rfl
  physOffset_eq := rfl
  used_iff := fun _ _ => (or_iff_left_of_imp inv.used_of_page).symm
  pages_le := fun _ => Finset.Subset.refl _
  new_free := fun _ _ member => Or.inl member
  outside := fun _ _ _ => rfl
  kept := fun _ _ _ _ _ _ _ => rfl

theorem SlabEffect.bitmapBytes_eq (effect : SlabEffect s s' layout after) :
    s'.phys.bitmapBytes = s.phys.bitmapBytes := by
  unfold PhysState.bitmapBytes
  rw [effect.bitmap_eq, effect.total_eq]

theorem SlabEffect.trans (one : SlabEffect s s' layout middle)
    (two : SlabEffect s' s'' middle after)
    (live : ∀ i, ∀ c ∈ layout.live i, c ∈ after.live i → c ∈ middle.live i) :
    SlabEffect s s'' layout after where
  bitmap_eq := two.bitmap_eq.trans one.bitmap_eq
  total_eq := two.total_eq.trans one.total_eq
  physOffset_eq := two.physOffset_eq.trans one.physOffset_eq
  used_iff := fun frame bound => by
    rw [two.used_iff frame (by rw [one.total_eq]; exact bound), one.used_iff frame bound, or_assoc]
    refine or_congr_right (or_iff_right_of_imp ?_)
    rintro ⟨i, member⟩
    exact ⟨i, two.pages_le i member⟩
  pages_le := fun i => (one.pages_le i).trans (two.pages_le i)
  new_free := fun i page member => by
    rcases two.new_free i page member with before | ⟨bound, free⟩
    · exact one.new_free i page before
    · rw [one.total_eq] at bound
      refine Or.inr ⟨bound, (PhysState.not_used_iff _ _).mp fun used => ?_⟩
      exact (PhysState.not_free_iff _ _).mpr ((one.used_iff page bound).mpr (Or.inl used)) free
  outside := fun place notBitmap away => by
    refine (two.outside place ?_ ?_).trans (one.outside place notBitmap ?_)
    · rw [one.bitmapBytes_eq]
      exact notBitmap
    · rw [one.physOffset_eq]
      exact away
    · exact fun i page member => away i page (two.pages_le i member)
  kept := fun i c before afterwards place low high =>
    (two.kept i c (live i c before afterwards) afterwards place low high).trans
      (one.kept i c before (live i c before afterwards) place low high)

/-- A zone has at most as many pages as there are frames. -/
theorem SlabInv.card_pages_le (inv : SlabInv s reserved layout) (i : Fin 8) :
    (layout.pages i).card ≤ s.phys.pmm.totalFrames := by
  have subset : layout.pages i ⊆ Finset.range s.phys.pmm.totalFrames := fun page member =>
    Finset.mem_range.mpr ((inv.zone i).owned page member).1
  exact (Finset.card_le_card subset).trans (Finset.card_range _).le

/-- The head of a free list is a chunk or null. -/
theorem SlabInv.freeList_lt (inv : SlabInv s reserved layout) (i : Fin 8) :
    (s.zones i).freeList < 2 ^ 64 := by
  have chain := (inv.zone i).chain
  cases shape : layout.nodes i with
  | nil =>
      rw [shape] at chain
      rw [show (s.zones i).freeList = 0 from chain]
      decide
  | cons head rest =>
      rw [shape] at chain
      rw [chain.1]
      have bounds := inv.chunk_bounds (inv.node_mem (i := i) (c := head) (by simp [shape]))
      omega

def inPage (offset page place : Nat) : Prop :=
  offset + page * slabPageSize ≤ place ∧ place < offset + (page + 1) * slabPageSize

/-- `zone_refill` with a page from the frame manager. -/
theorem zoneRefill_of_taken {page : Nat} {phys : PhysState} (nonzero : page ≠ 0)
    (taken : pmmAllocFrame s.phys = (page * pageSize, phys))
    (top : s.physOffset + (page + 1) * slabPageSize < 2 ^ 64) :
    zoneRefill i s =
      let base := s.physOffset + page * slabPageSize
      let z := s.zones i
      let carving := carve base z.chunkSize (slabPageSize / z.chunkSize) (z.freeList, phys.mem)
      { s with phys := { phys with mem := carving.2 } }.setZone i
        { z with freeList := carving.1, allocCount := wrap64 (z.allocCount + 1) } := by
  have notNull : page * pageSize ≠ 0 := Nat.mul_ne_zero nonzero (by decide)
  have place : wrap64 (page * pageSize + s.physOffset) = s.physOffset + page * slabPageSize := by
    rw [Nat.add_comm]
    refine wrap64_of_lt (Nat.lt_of_le_of_lt ?_ top)
    exact Nat.add_le_add_left (Nat.mul_le_mul_right _ (Nat.le_succ page)) _
  unfold zoneRefill
  rw [taken]
  dsimp only
  rw [if_neg notNull]
  unfold physToVirt
  dsimp only
  rw [place]
  rfl

/-- A page that was free has no chunk of any zone. -/
theorem SlabInv.page_fresh (inv : SlabInv s reserved layout) {page : Nat}
    (free : s.phys.Free page) (i : Fin 8) : page ∉ layout.pages i := fun member =>
  (PhysState.not_free_iff _ _).mpr ((inv.zone i).owned page member).2.1 free

/-- A chunk of another page lies outside the page. -/
theorem SlabInv.chunk_not_inPage (inv : SlabInv s reserved layout) {page place : Nat}
    (free : s.phys.Free page) (member : c ∈ layout.chunksOf s.physOffset i) (low : c ≤ place)
    (high : place < c + zoneChunkSize i) : ¬ inPage s.physOffset page place := by
  rcases chunk_place member with ⟨other, otherMem, low', high'⟩
  have different : other ≠ page := fun same => inv.page_fresh free i (same ▸ otherMem)
  unfold inPage
  unfold slabPageSize at *
  omega

/-- What carving a free page into chunks of a zone does. -/
structure Refills (s s' : SlabState) (reserved : Set Nat) (i : Fin 8) (page : Nat)
    (nodes : List Nat) : Prop where
  bound : page < s.phys.pmm.totalFrames
  free : s.phys.Free page
  notReserved : page ∉ reserved
  bitmap_eq : s'.phys.pmm.bitmap = s.phys.pmm.bitmap
  total_eq : s'.phys.pmm.totalFrames = s.phys.pmm.totalFrames
  physOffset_eq : s'.physOffset = s.physOffset
  space : FrameSpace s'.phys s.physOffset reserved
  used_iff : ∀ frame, frame < s.phys.pmm.totalFrames →
    (s'.phys.Used frame ↔ s.phys.Used frame ∨ frame = page)
  outside : ∀ place, place ∉ s.phys.bitmapBytes → ¬ inPage s.physOffset page place →
    s'.mem place = s.mem place
  others : ∀ j, j ≠ i → s'.zones j = s.zones j
  chunkSize : (s'.zones i).chunkSize = (s.zones i).chunkSize
  count : (s'.zones i).allocCount = wrap64 ((s.zones i).allocCount + 1)
  chain : Chain s'.mem.load64 (s'.zones i).freeList
    (carved (s.physOffset + page * slabPageSize) (zoneChunkSize i)
      (slabPageSize / zoneChunkSize i) ++ nodes)

theorem SlabInv.zoneRefill_cases (inv : SlabInv s reserved layout) (i : Fin 8) :
    (zoneRefill i s = s ∧ ∀ frame, frame < s.phys.pmm.totalFrames → s.phys.Used frame) ∨
      ∃ page, Refills s (zoneRefill i s) reserved i page (layout.nodes i) := by
  rcases inv.space.allocFrame with
    ⟨failed, full⟩ | ⟨page, bound, free, notReserved, nonzero, address, takes⟩
  · refine Or.inl ⟨?_, full⟩
    unfold zoneRefill
    rw [failed]
    rfl
  · refine Or.inr ⟨page, ?_⟩
    rcases result : pmmAllocFrame s.phys with ⟨pa, phys⟩
    rw [result] at address takes
    dsimp only at address takes
    subst address
    have last : (page + 1) * slabPageSize ≤ s.phys.pmm.totalFrames * pageSize :=
      Nat.mul_le_mul_right pageSize bound
    have top : s.physOffset + (page + 1) * slabPageSize < 2 ^ 64 :=
      Nat.lt_of_le_of_lt (Nat.add_le_add_left last _) inv.space.space_lt
    have zone := inv.zone i
    rcases zoneChunkSize_facts i with ⟨wide, _, whole, _⟩
    have nextPage : s.physOffset + (page + 1) * slabPageSize =
        s.physOffset + page * slabPageSize + slabPageSize := by
      rw [Nat.succ_mul, Nat.add_assoc]
    have positive : 0 < page * slabPageSize :=
      Nat.mul_pos (Nat.pos_of_ne_zero nonzero) (by decide)
    have old : ∀ node ∈ layout.nodes i, ∀ place, node ≤ place → place < node + 8 →
        place ∉ s.phys.bitmapBytes ∧ ¬ inPage s.physOffset page place := by
      intro node member place low high
      have chunk := inv.node_mem member
      exact ⟨inv.not_bitmap chunk low (by omega),
        inv.chunk_not_inPage free chunk low (by omega)⟩
    have chain : Chain phys.mem.load64 (s.zones i).freeList (layout.nodes i) := by
      refine zone.chain.congr fun node member => Mem.load64_congr fun place low high => ?_
      exact takes.mem_eq place (old node member place low high).1
    rcases @carve_spec (s.physOffset + page * slabPageSize) (zoneChunkSize i)
        (slabPageSize / zoneChunkSize i) _ phys.mem _ wide (by omega)
        (by rw [whole]; omega) (inv.freeList_lt i) chain (fun node member => by
          rw [whole, ← nextPage]
          have first := (old node member node (Nat.le_refl _) (by omega)).2
          have final := (old node member (node + 7) (by omega) (by omega)).2
          unfold inPage slabPageSize at *
          omega) with
      ⟨head, mem', carves, linked, _, outside⟩
    rw [whole, ← nextPage] at outside
    have apart : ∀ place, ¬ inPage s.physOffset page place → mem' place = phys.mem place := by
      intro place away
      refine outside place ?_
      unfold inPage at away
      omega
    have bitmap : ∀ place ∈ phys.bitmapBytes, mem' place = phys.mem place := by
      intro place inBitmap
      rw [takes.bitmapBytes_eq] at inBitmap
      refine apart place fun inside => ?_
      exact inv.space.free_not_bitmap bound free inside.1 inside.2 inBitmap
    rw [zoneRefill_of_taken nonzero result top]
    dsimp only
    rw [zone.chunkSize, carves]
    constructor
    case bound => exact bound
    case free => exact free
    case notReserved => exact notReserved
    case bitmap_eq => exact takes.bitmap_eq
    case total_eq => exact takes.total_eq
    case physOffset_eq => rfl
    case space => exact (inv.space.takes takes).congr rfl bitmap
    case used_iff =>
      intro frame frameBound
      rw [← Set.mem_singleton_iff, ← takes.used_iff]
      exact @used_congr phys { phys with mem := mem' } rfl bitmap frame
        (by rw [takes.total_eq]; exact frameBound)
    case outside =>
      intro place notBitmap away
      exact (apart place away).trans (takes.mem_eq place notBitmap)
    case others => exact fun j different => SlabState.setZone_of_ne _ _ _ different
    case chunkSize =>
      rw [SlabState.setZone_self]
      exact zone.chunkSize.symm
    case count => rw [SlabState.setZone_self]
    case chain =>
      rw [SlabState.setZone_self]
      exact linked

/-- The chunks of a zone with one more page. -/
theorem mem_chunks_insert {offset page : Nat} {pages : Finset Nat} :
    c ∈ chunks offset (zoneChunkSize i) (insert page pages) ↔
      c ∈ carved (offset + page * slabPageSize) (zoneChunkSize i)
        (slabPageSize / zoneChunkSize i) ∨ c ∈ chunks offset (zoneChunkSize i) pages := by
  rw [mem_chunks, mem_chunks, mem_carved]
  constructor
  · rintro ⟨other, member, rest⟩
    rcases Finset.mem_insert.mp member with rfl | old
    · exact Or.inl rest
    · exact Or.inr ⟨other, old, rest⟩
  · rintro (rest | ⟨other, old, rest⟩)
    · exact ⟨page, Finset.mem_insert_self _ _, rest⟩
    · exact ⟨other, Finset.mem_insert_of_mem old, rest⟩

theorem Refills.zoneInv {page : Nat} (inv : SlabInv s reserved layout)
    (refills : Refills s s' reserved i page (layout.nodes i)) :
    ZoneInv s' reserved i (insert page (layout.pages i))
      (carved (s.physOffset + page * slabPageSize) (zoneChunkSize i)
        (slabPageSize / zoneChunkSize i) ++ layout.nodes i) (layout.live i) := by
  have zone := inv.zone i
  have fresh := inv.page_fresh refills.free i
  rcases zoneChunkSize_facts i with ⟨wide, _, whole, _⟩
  have newPlace : ∀ c ∈ carved (s.physOffset + page * slabPageSize) (zoneChunkSize i)
      (slabPageSize / zoneChunkSize i), c ∉ chunks s.physOffset (zoneChunkSize i)
        (layout.pages i) := by
    intro c new old
    have only : c ∈ chunks s.physOffset (zoneChunkSize i) {page} := by
      rw [← insert_empty_eq, mem_chunks_insert]
      exact Or.inl new
    have apart := chunk_apart_pages only old fun other single => by
      rw [Finset.mem_singleton.mp single]
      exact fresh
    omega
  constructor
  case chunkSize => exact refills.chunkSize.trans zone.chunkSize
  case chain => exact refills.chain
  case nodup =>
    rw [List.nodup_append]
    refine ⟨nodup_carved (by omega), zone.nodup, fun c new d old same => ?_⟩
    exact newPlace c new (same ▸ inv.node_mem old)
  case chunk_iff =>
    intro c
    rw [refills.physOffset_eq, mem_chunks_insert, List.mem_append, or_assoc]
    exact or_congr_right (zone.chunk_iff c)
  case apart =>
    intro c member isLive
    rcases List.mem_append.mp member with new | old
    · exact newPlace c new (inv.live_mem isLive)
    · exact zone.apart c old isLive
  case owned =>
    intro other member
    rw [refills.total_eq]
    rcases Finset.mem_insert.mp member with rfl | old
    · exact ⟨refills.bound, (refills.used_iff other refills.bound).mpr (Or.inr rfl),
        refills.notReserved⟩
    · rcases zone.owned other old with ⟨bound, used, outside⟩
      exact ⟨bound, (refills.used_iff other bound).mpr (Or.inl used), outside⟩
  case count =>
    have frames := inv.card_pages_le i
    have space := inv.space.space_lt
    unfold pageSize at space
    rw [refills.count, zone.count, Finset.card_insert_of_notMem fresh]
    exact wrap64_of_lt (by omega)

/-- The bytes of the old chunks are the same after a refill. -/
theorem Refills.chunk_eq {page place : Nat} {j : Fin 8} (inv : SlabInv s reserved layout)
    (refills : Refills s s' reserved i page (layout.nodes i))
    (member : c ∈ layout.chunksOf s.physOffset j) (low : c ≤ place)
    (high : place < c + zoneChunkSize j) : s'.mem place = s.mem place :=
  refills.outside place (inv.not_bitmap member low high)
    (inv.chunk_not_inPage refills.free member low high)

/-- A zone with a new page. -/
def SlabLayout.refill (layout : SlabLayout) (offset : Nat) (i : Fin 8) (page : Nat) : SlabLayout :=
  layout.set i (insert page (layout.pages i))
    (carved (offset + page * slabPageSize) (zoneChunkSize i) (slabPageSize / zoneChunkSize i) ++
      layout.nodes i) (layout.live i)

theorem Refills.inv {page : Nat} (inv : SlabInv s reserved layout)
    (refills : Refills s s' reserved i page (layout.nodes i)) :
    SlabInv s' reserved (layout.refill s.physOffset i page) := by
  refine inv.of_zone s' i refills.space refills.total_eq ?_ ?_ refills.others refills.physOffset_eq
    (refills.zoneInv inv) ?_
  · intro j _ other member used
    exact (refills.used_iff other ((inv.zone j).owned other member).1).mpr (Or.inl used)
  · intro j _ c member
    have wide := (zoneChunkSize_facts j).1
    exact Mem.load64_congr fun place low high =>
      refills.chunk_eq inv (inv.node_mem member) low (by omega)
  · intro j different other member
    rcases Finset.mem_insert.mp member with rfl | old
    · exact inv.page_fresh refills.free j
    · exact fun inJ => different (inv.pages_apart j i other inJ old)

theorem SlabLayout.mem_refill_pages {offset page frame : Nat} {j : Fin 8} :
    frame ∈ (layout.refill offset i page).pages j ↔
      frame ∈ layout.pages j ∨ j = i ∧ frame = page := by
  unfold refill
  by_cases same : j = i
  · subst same
    rw [(layout.set_self j _ _ _).1, Finset.mem_insert]
    simp [or_comm]
  · rw [(layout.set_of_ne i _ _ _ same).1]
    simp [same]

theorem Refills.effect {page : Nat} (inv : SlabInv s reserved layout)
    (refills : Refills s s' reserved i page (layout.nodes i)) :
    SlabEffect s s' layout (layout.refill s.physOffset i page) where
  bitmap_eq := refills.bitmap_eq
  total_eq := refills.total_eq
  physOffset_eq := refills.physOffset_eq
  used_iff := fun frame bound => by
    rw [refills.used_iff frame bound]
    constructor
    · rintro (used | rfl)
      · exact Or.inl used
      · exact Or.inr ⟨i, SlabLayout.mem_refill_pages.mpr (Or.inr ⟨rfl, rfl⟩)⟩
    · rintro (used | ⟨j, member⟩)
      · exact Or.inl used
      · rcases SlabLayout.mem_refill_pages.mp member with old | ⟨_, new⟩
        · exact Or.inl (inv.used_of_page ⟨j, old⟩)
        · exact Or.inr new
  pages_le := fun _ _ member => SlabLayout.mem_refill_pages.mpr (Or.inl member)
  new_free := fun j frame member => by
    rcases SlabLayout.mem_refill_pages.mp member with old | ⟨_, rfl⟩
    · exact Or.inl old
    · exact Or.inr ⟨refills.bound, refills.free⟩
  outside := fun place notBitmap away => by
    refine refills.outside place notBitmap fun inside => ?_
    have := away i page (SlabLayout.mem_refill_pages.mpr (Or.inr ⟨rfl, rfl⟩))
    unfold inPage at inside
    omega
  kept := fun j c live _ place low high => refills.chunk_eq inv (inv.live_mem live) low high

/-! ## Pop and push -/

theorem SlabInv.pop (inv : SlabInv s reserved layout) {rest : List Nat}
    (shape : layout.nodes i = c :: rest) :
    (popChunk i s).1 = c ∧ c ∉ layout.live i ∧
      SlabInv (popChunk i s).2 reserved
        (layout.set i (layout.pages i) rest (insert c (layout.live i))) := by
  have zone := inv.zone i
  have chain := zone.chain
  have nodup := zone.nodup
  have chunk_iff := zone.chunk_iff
  have apart := zone.apart
  rw [shape] at chain nodup chunk_iff apart
  rcases chain with ⟨head, nonzero, tail⟩
  rcases List.nodup_cons.mp nodup with ⟨notInRest, restNodup⟩
  refine ⟨head, apart c (List.mem_cons_self ..), ?_⟩
  unfold popChunk
  dsimp only
  rw [head]
  refine inv.of_zone (s.setZone i { s.zones i with freeList := s.mem.load64 c }) i inv.space rfl
    (fun _ _ _ _ used => used) (fun _ _ _ _ => rfl)
    (fun j different => SlabState.setZone_of_ne _ _ _ different) rfl ?_
    (fun j different page inI inJ => different (inv.pages_apart j i page inJ inI))
  constructor
  case chunkSize =>
    rw [SlabState.setZone_self]
    exact zone.chunkSize
  case chain =>
    rw [SlabState.setZone_self]
    exact tail
  case nodup => exact restNodup
  case chunk_iff =>
    intro d
    refine Iff.trans ?_ (chunk_iff d)
    rw [Finset.mem_insert, List.mem_cons, or_assoc]
    exact or_left_comm
  case apart =>
    intro d member isLive
    rcases Finset.mem_insert.mp isLive with rfl | old
    · exact notInRest member
    · exact apart d (List.mem_cons_of_mem _ member) old
  case owned => exact zone.owned
  case count =>
    rw [SlabState.setZone_self]
    exact zone.count

theorem SlabInv.push (inv : SlabInv s reserved layout) (live : c ∈ layout.live i) :
    SlabInv ((s.setMem (s.mem.store64 c (s.zones i).freeList)).setZone i
        { s.zones i with freeList := c }) reserved
      (layout.set i (layout.pages i) (c :: layout.nodes i) ((layout.live i).erase c)) := by
  have zone := inv.zone i
  have chunk := inv.live_mem live
  have bounds := inv.chunk_bounds chunk
  have wide := (zoneChunkSize_facts i).1
  have bitmap : ∀ place ∈ s.phys.bitmapBytes,
      s.mem.store64 c (s.zones i).freeList place = s.mem place := by
    intro place inBitmap
    refine Mem.store64_apply_of_outside ?_
    by_contra inside
    exact inv.not_bitmap chunk (by omega) (by omega) inBitmap
  have links : ∀ j, ∀ d ∈ layout.nodes j,
      (s.mem.store64 c (s.zones i).freeList).load64 d = s.mem.load64 d := by
    intro j d member
    have wide' := (zoneChunkSize_facts j).1
    refine Mem.load64_store64_disjoint ?_
    have different : j ≠ i ∨ d ≠ c := by
      by_cases same : j = i
      · subst same
        exact Or.inr fun equal => zone.apart d member (equal ▸ live)
      · exact Or.inl same
    rcases inv.chunks_apart (inv.node_mem member) chunk different with before | behind <;> omega
  have usedEq : ∀ page, page < s.phys.pmm.totalFrames →
      ((s.setMem (s.mem.store64 c (s.zones i).freeList)).phys.Used page ↔ s.phys.Used page) :=
    fun page bound => @used_congr s.phys
      (s.setMem (s.mem.store64 c (s.zones i).freeList)).phys rfl bitmap page bound
  refine inv.of_zone ((s.setMem (s.mem.store64 c (s.zones i).freeList)).setZone i
    { s.zones i with freeList := c }) i (inv.space.congr rfl bitmap) rfl ?_ (fun j _ => links j)
    (fun j different => SlabState.setZone_of_ne _ _ _ different) rfl ?_
    (fun j different page inI inJ => different (inv.pages_apart j i page inJ inI))
  · intro j _ page member used
    exact (usedEq page ((inv.zone j).owned page member).1).mpr used
  constructor
  case chunkSize =>
    rw [SlabState.setZone_self]
    exact zone.chunkSize
  case chain =>
    rw [SlabState.setZone_self]
    refine ⟨rfl, by omega, ?_⟩
    simp only [SlabState.setZone_mem, SlabState.setMem_mem]
    rw [Mem.load64_store64_same, wrap64_of_lt (inv.freeList_lt i)]
    exact zone.chain.congr (links i)
  case nodup => exact List.nodup_cons.mpr ⟨fun node => zone.apart c node live, zone.nodup⟩
  case chunk_iff =>
    intro d
    refine Iff.trans ?_ (zone.chunk_iff d)
    rw [List.mem_cons, Finset.mem_erase]
    by_cases same : d = c
    · subst same
      exact iff_of_true (Or.inl (Or.inl rfl)) (Or.inr live)
    · simp only [same, false_or, ne_eq, not_false_eq_true, true_and]
  case apart =>
    intro d member isLive
    rcases Finset.mem_erase.mp isLive with ⟨different, old⟩
    rcases List.mem_cons.mp member with same | node
    · exact different same
    · exact zone.apart d node old
  case owned =>
    intro page member
    rcases zone.owned page member with ⟨bound, used, notReserved⟩
    exact ⟨bound, (usedEq page bound).mpr used, notReserved⟩
  case count =>
    rw [SlabState.setZone_self]
    exact zone.count

/-- The layout of a zone whose pages stay the same. -/
theorem SlabLayout.set_pages (layout : SlabLayout) (i : Fin 8) (nodes : List Nat)
    (live : Finset Nat) : (layout.set i (layout.pages i) nodes live).pages = layout.pages :=
  Function.update_eq_self i layout.pages

/-- Taking a chunk from the free list writes nothing. -/
theorem SlabInv.pop_effect (inv : SlabInv s reserved layout) (nodes : List Nat)
    (live : Finset Nat) :
    SlabEffect s (popChunk i s).2 layout (layout.set i (layout.pages i) nodes live) where
  bitmap_eq := rfl
  total_eq := rfl
  physOffset_eq := rfl
  used_iff := fun frame _ => by
    rw [SlabLayout.set_pages]
    exact (or_iff_left_of_imp inv.used_of_page).symm
  pages_le := fun j => by rw [SlabLayout.set_pages]
  new_free := fun j page member => by
    rw [SlabLayout.set_pages] at member
    exact Or.inl member
  outside := fun _ _ _ => rfl
  kept := fun _ _ _ _ _ _ _ => rfl

/-- Giving a chunk back writes only into this chunk. -/
theorem SlabInv.push_effect (inv : SlabInv s reserved layout) (live : c ∈ layout.live i)
    (nodes : List Nat) :
    SlabEffect s ((s.setMem (s.mem.store64 c (s.zones i).freeList)).setZone i
        { s.zones i with freeList := c }) layout
      (layout.set i (layout.pages i) nodes ((layout.live i).erase c)) := by
  have chunk := inv.live_mem live
  have wide := (zoneChunkSize_facts i).1
  have written : ∀ place, (place < c ∨ c + zoneChunkSize i ≤ place) →
      s.mem.store64 c (s.zones i).freeList place = s.mem place :=
    fun place away => Mem.store64_apply_of_outside (by omega)
  constructor
  case bitmap_eq => rfl
  case total_eq => rfl
  case physOffset_eq => rfl
  case used_iff =>
    intro frame bound
    rw [SlabLayout.set_pages]
    refine Iff.trans ?_ (or_iff_left_of_imp inv.used_of_page).symm
    refine @used_congr s.phys (s.setMem (s.mem.store64 c (s.zones i).freeList)).phys rfl
      (fun place inBitmap => written place ?_) frame bound
    by_contra inside
    exact inv.not_bitmap chunk (by omega) (by omega) inBitmap
  case pages_le =>
    intro j
    rw [SlabLayout.set_pages]
  case new_free =>
    intro j page member
    rw [SlabLayout.set_pages] at member
    exact Or.inl member
  case outside =>
    intro place _ away
    rcases chunk_place chunk with ⟨page, pageMem, low, high⟩
    have apart := away i page (by rw [SlabLayout.set_pages]; exact pageMem)
    exact written place (by omega)
  case kept =>
    intro j d isLive isLive' place low high
    have different : j ≠ i ∨ d ≠ c := by
      by_cases same : j = i
      · subst same
        rw [(layout.set_self j _ _ _).2.2] at isLive'
        exact Or.inr (Finset.mem_erase.mp isLive').1
      · exact Or.inl same
    refine written place ?_
    rcases inv.chunks_apart (inv.live_mem isLive) chunk different with before | behind <;> omega

end Edits

end Slab
end AuraKernel
