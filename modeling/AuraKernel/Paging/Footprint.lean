import AuraKernel.Paging.PageMap
import AuraKernel.Physical.Partition

namespace AuraKernel
namespace Paging

open Machine
open Physical

/-!
# The frames of an address space

An address space works in the frames of its tables: `vmm_map_page` takes a free
frame for each table that it creates, and both calls write to tables only.  In
turn an operation that is confined to other frames leaves the tables, and with
them every translation, as they are.
-/

def spaceFrames (mem : Mem) (root : Nat) : Set Nat :=
  {frame | ∃ path, tableAt mem root path = some (frame * pageSize)}

/-- An operation on an address space that takes frames for its new tables and for nothing else. -/
structure Extends (s s' : PhysState) (root : Nat) (reserved : Set Nat) : Prop where
  effect : TreeEffect s s' root reserved
  total_eq : s'.pmm.totalFrames = s.pmm.totalFrames
  used_iff : ∀ frame, frame < s.pmm.totalFrames →
    (s'.Used frame ↔ s.Used frame ∨ frame ∈ spaceFrames s'.mem root)
  new_free : ∀ frame ∈ spaceFrames s'.mem root,
    frame ∈ spaceFrames s.mem root ∨ frame < s.pmm.totalFrames ∧ s.Free frame

section Frames

variable {s s' s'' : PhysState} {root : Nat} {reserved : Set Nat}

theorem IsTable.frame_mul {table : Nat} (isTable : IsTable s table) :
    table / pageSize * pageSize = table :=
  Nat.div_mul_cancel (Nat.dvd_of_mod_eq_zero isTable.aligned)

theorem TreeInv.frame_mem (inv : TreeInv s root reserved) {path : List Nat} {table : Nat}
    (found : tableAt s.mem root path = some table) : table / pageSize ∈ spaceFrames s.mem root := by
  refine ⟨path, ?_⟩
  rw [(inv.tables path table found).frame_mul]
  exact found

theorem TreeInv.frame_used (inv : TreeInv s root reserved) {frame : Nat}
    (member : frame ∈ spaceFrames s.mem root) (bound : frame < s.pmm.totalFrames) :
    s.Used frame := by
  rcases member with ⟨path, found⟩
  have used := (inv.tables path _ found).not_free
  rw [Nat.mul_div_cancel frame (by decide)] at used
  exact used bound

theorem TreeEffect.frames_mono (effect : TreeEffect s s' root reserved) :
    spaceFrames s.mem root ⊆ spaceFrames s'.mem root := by
  rintro frame ⟨path, found⟩
  exact ⟨path, effect.mono path _ found⟩

namespace Extends

theorem refl (inv : TreeInv s root reserved) : Extends s s root reserved where
  effect := TreeEffect.refl inv
  total_eq := rfl
  used_iff := by
    intro frame bound
    constructor
    · exact Or.inl
    · rintro (used | member)
      · exact used
      · exact inv.frame_used member bound
  new_free := fun _ member => Or.inl member

theorem trans (first : Extends s s' root reserved) (second : Extends s' s'' root reserved) :
    Extends s s'' root reserved where
  effect := first.effect.trans second.effect
  total_eq := second.total_eq.trans first.total_eq
  used_iff := by
    intro frame bound
    have bound' : frame < s'.pmm.totalFrames := first.total_eq.symm ▸ bound
    rw [second.used_iff frame bound', first.used_iff frame bound, or_assoc]
    exact or_congr_right (or_iff_right_of_imp fun member => second.effect.frames_mono member)
  new_free := by
    intro frame member
    rcases second.new_free frame member with old | ⟨bound', free⟩
    · exact first.new_free frame old
    · have bound : frame < s.pmm.totalFrames := first.total_eq ▸ bound'
      refine Or.inr ⟨bound, (PhysState.not_used_iff _ _).mp fun used => ?_⟩
      exact (PhysState.not_used_iff _ _).mpr free ((first.used_iff frame bound).mpr (Or.inl used))

/-- Writes that keep the tables and stay out of the bitmap. -/
theorem of_write {mem : Mem} (effect : TreeEffect s { s with mem := mem } root reserved)
    (inv : TreeInv s root reserved) (same : ∀ path, tableAt mem root path = tableAt s.mem root path)
    (bitmap : ∀ place ∈ s.bitmapBytes, mem place = s.mem place) :
    Extends s { s with mem := mem } root reserved := by
  have frames : spaceFrames mem root = spaceFrames s.mem root := by
    unfold spaceFrames
    simp only [same]
  have unchanged := refl inv
  constructor
  case effect => exact effect
  case total_eq => rfl
  case used_iff =>
    intro frame bound
    rw [@used_congr s { s with mem := mem } rfl bitmap frame bound, frames]
    exact unchanged.used_iff frame bound
  case new_free =>
    intro frame member
    rw [frames] at member
    exact Or.inl member

theorem ensureTable (inv : TreeInv s root reserved) {path rest : List Nat} {table index : Nat}
    (walk : WalkAt s root path (index :: rest) table) (served : EntryServed table index s) :
    Extends s (Paging.ensureTable table index s).2 root reserved := by
  have effect := (inv.ensureTable_walk walk served).effect
  by_cases present : IsPresent (entry s.mem table index)
  · rw [ensureTable_present present]
    exact refl inv
  rcases inv.space.allocFrame with ⟨failed, _⟩ | ⟨frame, bound, free, _, _, address, takes⟩
  · exact absurd (congrArg Prod.fst failed) (served present)
  have isTable := inv.tables path table walk.found
  have grafted := grafted_of_takes inv isTable walk.bound takes
  have bitmap := bitmap_graftMem inv.space isTable walk.bound takes
  have tables := grafted.tableAt_iff inv walk.found walk.inner walk.bound present
  rw [ensureTable_absent present, address] at effect ⊢
  have frames : ∀ other, other ∈ spaceFrames (graftMem (frame * pageSize) table index
      (pmmAllocFrame s).2.mem) root ↔ other ∈ spaceFrames s.mem root ∨ other = frame := by
    intro other
    constructor
    · rintro ⟨q, found⟩
      rcases (tables q _).mp found with old | ⟨_, same⟩
      · exact Or.inl ⟨q, old⟩
      · exact Or.inr (Nat.eq_of_mul_eq_mul_right (by decide) same)
    · rintro (⟨q, old⟩ | rfl)
      · exact ⟨q, (tables q _).mpr (Or.inl old)⟩
      · exact ⟨path ++ [index], (tables _ _).mpr (Or.inr ⟨rfl, rfl⟩)⟩
  constructor
  case effect => exact effect
  case total_eq => exact takes.total_eq
  case used_iff =>
    intro other inMemory
    have inMemory' : other < (pmmAllocFrame s).2.pmm.totalFrames := takes.total_eq.symm ▸ inMemory
    rw [@used_congr (pmmAllocFrame s).2 { (pmmAllocFrame s).2 with
      mem := graftMem (frame * pageSize) table index (pmmAllocFrame s).2.mem } rfl bitmap _
      inMemory', takes.used_iff other, frames, ← or_assoc]
    refine or_congr_left (or_iff_left_of_imp fun member => ?_).symm
    exact inv.frame_used member inMemory
  case new_free =>
    intro other member
    rcases (frames other).mp member with old | rfl
    · exact Or.inl old
    · exact Or.inr ⟨bound, free⟩

theorem ensurePath (inv : TreeInv s root reserved) {path rest : List Nat} {table : Nat}
    (walk : WalkAt s root path rest table) (served : PathServed table rest s) :
    Extends s (Paging.ensurePath table rest s).2 root reserved := by
  induction rest generalizing path table s with
  | nil => exact refl inv
  | cons index rest inductionHypothesis =>
      have ensured := inv.ensureTable_walk walk served.1
      have first := ensureTable inv walk served.1
      exact first.trans (inductionHypothesis first.effect.inv (walk.next ensured) served.2)

theorem setEntry (inv : TreeInv s root reserved) {path : List Nat} {table index value : Nat}
    (found : tableAt s.mem root path = some table) (last : path.length = 3) (bound : index < 512)
    (wide : value < 2 ^ 64) :
    Extends s { s with mem := Paging.setEntry table index value s.mem } root reserved := by
  apply of_write (inv.setEntry_spec found last bound wide).1 inv
  · exact inv.tableAt_setEntry found last bound value
  · intro place inBitmap
    have away := (inv.tables path table found).not_bitmap place inBitmap
    apply setEntry_apply_of_outside
    unfold pageSize at away
    omega

theorem map (inv : TreeInv s root reserved) {virt : Nat} (noLarge : NoLargeLeaf s.mem root virt)
    (served : MapServed root virt s) (phys flags : Nat) :
    Extends s (vmmMapPage root virt phys flags s) root reserved := by
  have ensured := inv.ensurePt_spec noLarge served
  have tables := ensurePath inv (WalkAt.start noLarge) (mapServed_iff.mp served)
  rw [← ensurePt_eq] at tables
  rw [vmmMapPage_eq]
  apply tables.trans
  exact setEntry ensured.effect.inv ensured.found rfl (ptIndex_lt virt) (pageEntry_lt phys flags)

theorem unmap (inv : TreeInv s root reserved) {virt : Nat} (noLarge : NoLargeLeaf s.mem root virt) :
    Extends s { s with mem := vmmUnmapPage root virt s.mem } root reserved := by
  rw [vmmUnmapPage_eq noLarge]
  cases found : tableAt s.mem root (pagePath virt) with
  | none => exact refl inv
  | some pt =>
      dsimp only
      by_cases absent : entry s.mem pt (ptIndex virt) &&& ptePresent = 0
      · rw [if_pos absent]
        exact refl inv
      · rw [if_neg absent]
        exact setEntry inv found rfl (ptIndex_lt virt) (by decide)

/-- An address space is confined to the frames of its tables. -/
theorem confined (extended : Extends s s' root reserved) :
    Confined 0 s s' (spaceFrames s.mem root) (spaceFrames s'.mem root) where
  total_eq := extended.total_eq
  new_free := fun frame member => (extended.new_free frame member).imp_right And.right
  used_keeps := fun frame bound used _ => (extended.used_iff frame bound).mpr (Or.inl used)
  mem_eq := by
    intro place notBitmap away
    by_contra changed
    rcases extended.effect.only_tables place notBitmap changed with ⟨path, table, found, low, high⟩
    have apart := away _ (Or.inr (extended.effect.inv.frame_mem found))
    have start := (extended.effect.inv.tables path table found).frame_mul
    rw [Nat.zero_add, Nat.zero_add, Nat.succ_mul, start] at apart
    omega

theorem accounts (extended : Extends s s' root reserved) :
    Accounts s s' (spaceFrames s.mem root) (spaceFrames s'.mem root) := by
  apply accounts_of_used extended.effect.frames_mono
  exact fun frame bound used => (extended.used_iff frame bound).mp used

end Extends

/-! ## Operations of others -/

/-- The frames of the tables are in memory and not reserved. -/
def FramesOwned (s : PhysState) (root : Nat) (reserved : Set Nat) : Prop :=
  ∀ frame ∈ spaceFrames s.mem root, frame < s.pmm.totalFrames ∧ frame ∉ reserved

theorem Extends.framesOwned (extended : Extends s s' root reserved)
    (inv : TreeInv s root reserved) (owned : FramesOwned s root reserved) :
    FramesOwned s' root reserved := by
  intro frame member
  rw [extended.total_eq]
  rcases extended.new_free frame member with old | ⟨bound, free⟩
  · exact owned frame old
  · refine ⟨bound, fun isReserved => ?_⟩
    exact (s.not_free_iff frame).mpr (inv.space.reserved_used frame isReserved bound) free

section Others

variable {own own' : Set Nat} (inv : TreeInv s root reserved)
  (owned : FramesOwned s root reserved) (confined : Confined 0 s s' own own')
  (apart : ∀ frame ∈ spaceFrames s.mem root, frame ∉ own)

include inv owned confined apart

/-- The entries of the tables are what they were. -/
theorem TreeInv.entry_other {path : List Nat} {table index : Nat}
    (found : tableAt s.mem root path = some table) (bound : index < 512) :
    entry s'.mem table index = entry s.mem table index := by
  have member := inv.frame_mem found
  have spared := confined.spares inv.space (owned _ member).1
    (inv.frame_used member (owned _ member).1) (owned _ member).2 (apart _ member)
  have start := (inv.tables path table found).frame_mul
  apply entry_congr bound
  intro place low high
  apply spared.2.2 place
  · rw [Nat.zero_add, start]
    exact low
  · rw [Nat.zero_add, Nat.succ_mul, start]
    exact high

theorem TreeInv.tableAt_other (path : List Nat) :
    tableAt s'.mem root path = tableAt s.mem root path := by
  apply descend_congr
  intro q table index found
  unfold tableChild
  by_cases bound : index < 512
  · rw [if_pos bound, if_pos bound, inv.entry_other owned confined apart found bound]
  · rw [if_neg bound, if_neg bound]

theorem TreeInv.spaceFrames_other : spaceFrames s'.mem root = spaceFrames s.mem root := by
  unfold spaceFrames
  simp only [inv.tableAt_other owned confined apart]

theorem TreeInv.leaf_other (p : List Nat) (j e : Nat) :
    Leaf s'.mem root p j e ↔ Leaf s.mem root p j e := by
  unfold Leaf
  simp only [inv.tableAt_other owned confined apart]
  refine exists_congr fun table => and_congr_right fun found => and_congr_right fun bound => ?_
  rw [inv.entry_other owned confined apart found bound]

theorem TreeInv.hwTranslate_other (virt : Nat) :
    hwTranslate s'.mem root virt = hwTranslate s.mem root virt := by
  apply Option.ext
  intro phys
  simp only [hwTranslate_eq_some_iff, inv.leaf_other owned confined apart]

theorem TreeInv.other (space : FrameSpace s' 0 reserved) : TreeInv s' root reserved := by
  have same := inv.tableAt_other owned confined apart
  constructor
  case space => exact space
  case total_le =>
    rw [confined.total_eq]
    exact inv.total_le
  case unique =>
    intro p q table reachedP reachedQ
    exact inv.unique p q table ((same p).symm.trans reachedP) ((same q).symm.trans reachedQ)
  case tables =>
    intro path table reached
    have found := (same path).symm.trans reached
    have member := inv.frame_mem found
    have isTable := inv.tables path table found
    refine ⟨isTable.aligned, fun _ => ?_, fun place inBitmap => ?_⟩
    · exact (confined.spares inv.space (owned _ member).1
        (inv.frame_used member (owned _ member).1) (owned _ member).2 (apart _ member)).1
    · -- a frame with a byte of the bitmap would be reserved
      have bound : table / pageSize < s'.pmm.totalFrames := confined.total_eq ▸ (owned _ member).1
      have notIn := fun low high =>
        (owned _ member).2 (space.bitmap_reserved _ bound place inBitmap low high)
      rw [Nat.zero_add, Nat.zero_add, Nat.succ_mul, isTable.frame_mul] at notIn
      by_contra inside
      exact notIn (by omega) (by omega)

end Others

/-- An address space with its map does not notice an operation of somebody else. -/
theorem SessionInv.other {pages : Nat → Option Nat} {own own' : Set Nat}
    (inv : SessionInv root reserved ⟨s, pages⟩) (owned : FramesOwned s root reserved)
    (confined : Confined 0 s s' own own')
    (apart : ∀ frame ∈ spaceFrames s.mem root, frame ∉ own)
    (space : FrameSpace s' 0 reserved) : SessionInv root reserved ⟨s', pages⟩ where
  tree := inv.tree.other owned confined apart space
  deep := fun p j e leaf => inv.deep p j e ((inv.tree.leaf_other owned confined apart p j e).mp leaf)
  aligned := inv.aligned
  translated := fun v => (inv.tree.hwTranslate_other owned confined apart v).trans (inv.translated v)

end Frames

end Paging
end AuraKernel
