import AuraKernel.Paging.Hardware
import AuraKernel.Physical.Handout

namespace AuraKernel
namespace Paging

open Machine
open Physical

/-!
# Address spaces

The tables of an address space form a tree in frames that the manager does not
hand out.  Creating a table is a graft: the tree gets one more path and keeps
its leaves.  Writing an entry of the last level changes one leaf and no table.
The calls of the manager are made of these two edits.
-/

/-- A frame that can serve as a table: the manager neither hands it out nor keeps
its bitmap there. -/
structure IsTable (s : PhysState) (table : Nat) : Prop where
  aligned : table % pageSize = 0
  not_free : table / pageSize < s.pmm.totalFrames → s.Used (table / pageSize)
  not_bitmap : ∀ place ∈ s.bitmapBytes, place < table ∨ table + pageSize ≤ place

/-- The tables of an address space are a tree in frames of their own. -/
structure TreeInv (s : PhysState) (root : Nat) (reserved : Set Nat) : Prop where
  space : FrameSpace s 0 reserved
  total_le : s.pmm.totalFrames * pageSize ≤ 2 ^ 52
  unique : UniquePaths (tableChild s.mem) root
  tables : ∀ path table, tableAt s.mem root path = some table → IsTable s table

/-- What an operation on an address space may do: it keeps the tables, and writes
to tables only, the manager's bitmap apart. -/
structure TreeEffect (s s' : PhysState) (root : Nat) (reserved : Set Nat) : Prop where
  inv : TreeInv s' root reserved
  bitmap_eq : s'.bitmapBytes = s.bitmapBytes
  mono : ∀ path table, tableAt s.mem root path = some table →
    tableAt s'.mem root path = some table
  only_tables : ∀ place, place ∉ s.bitmapBytes → s'.mem place ≠ s.mem place →
    ∃ path table, tableAt s'.mem root path = some table ∧ table ≤ place ∧
      place < table + pageSize

/-- The leaves are the same but for one, which is now made by `value`. -/
def LeafUpdated (mem mem' : Mem) (root : Nat) (path : List Nat) (index value : Nat) : Prop :=
  ∀ p j e, Leaf mem' root p j e ↔
    if p = path ∧ j = index then e = value ∧ IsPresent e else Leaf mem root p j e

/-- An entry behind a path that points to a table. -/
def Link (mem : Mem) (root : Nat) (path : List Nat) (index e : Nat) : Prop :=
  ∃ table next, tableAt mem root path = some table ∧ index < 512 ∧ entry mem table index = e ∧
    nextTable path.length e = some next

/-- The links are the old ones and the links to new tables, which all have the same flags. -/
def LinksAdded (mem mem' : Mem) (root : Nat) : Prop :=
  ∀ p j e, Link mem' root p j e → Link mem root p j e ∨
    tableAt mem root (p ++ [j]) = none ∧ ∃ next, next % 2 ^ 12 = 0 ∧ next < 2 ^ 52 ∧ e = next + 7

section Trees

variable {s s' s'' : PhysState} {root : Nat} {reserved : Set Nat}

theorem TreeEffect.refl (inv : TreeInv s root reserved) : TreeEffect s s root reserved where
  inv := inv
  bitmap_eq := rfl
  mono := fun _ _ found => found
  only_tables := fun _ _ changed => absurd rfl changed

theorem TreeEffect.trans (first : TreeEffect s s' root reserved)
    (second : TreeEffect s' s'' root reserved) : TreeEffect s s'' root reserved where
  inv := second.inv
  bitmap_eq := second.bitmap_eq.trans first.bitmap_eq
  mono := fun path table found => second.mono path table (first.mono path table found)
  only_tables := by
    intro place notBitmap changed
    by_cases same : s''.mem place = s'.mem place
    · rw [same] at changed
      rcases first.only_tables place notBitmap changed with ⟨path, table, found, inside⟩
      exact ⟨path, table, second.mono path table found, inside⟩
    · apply second.only_tables place _ same
      rw [first.bitmap_eq]
      exact notBitmap

/-! ## Tables apart -/

/-- Two tables are the same or have no byte in common. -/
theorem IsTable.apart {table other : Nat} (isTable : IsTable s table) (isOther : IsTable s other)
    (different : table ≠ other) : table + pageSize ≤ other ∨ other + pageSize ≤ table := by
  have aligned := isTable.aligned
  have aligned' := isOther.aligned
  unfold pageSize at *
  omega

theorem IsTable.not_fresh {table frame : Nat} (isTable : IsTable s table)
    (bound : frame < s.pmm.totalFrames) (free : s.Free frame) : table ≠ frame * pageSize := by
  rintro rfl
  have place : frame * pageSize / pageSize = frame := Nat.mul_div_cancel frame (by decide)
  have used := isTable.not_free (by rw [place]; exact bound)
  rw [place] at used
  exact (PhysState.not_used_iff _ _).mpr free used

/-- Writes outside the bitmap keep the tables. -/
theorem IsTable.congr {table : Nat} (isTable : IsTable s table) (pmm : s'.pmm = s.pmm)
    (bitmap : ∀ place ∈ s.bitmapBytes, s'.mem place = s.mem place) : IsTable s' table where
  aligned := isTable.aligned
  not_free := by
    intro inMemory
    rw [pmm] at inMemory
    exact (used_congr pmm bitmap inMemory).mpr (isTable.not_free inMemory)
  not_bitmap := by
    unfold PhysState.bitmapBytes
    rw [pmm]
    exact isTable.not_bitmap

theorem IsTable.takes {table : Nat} {taken : Set Nat} (isTable : IsTable s table)
    (takes : Takes s s' taken) : IsTable s' table where
  aligned := isTable.aligned
  not_free := by
    intro inMemory
    rw [takes.total_eq] at inMemory
    exact (takes.used_iff _).mpr (Or.inl (isTable.not_free inMemory))
  not_bitmap := by
    rw [takes.bitmapBytes_eq]
    exact isTable.not_bitmap

/-- A free frame does not overlap the bitmap. -/
theorem bitmap_apart {frame : Nat} (space : FrameSpace s 0 reserved)
    (inMemory : frame < s.pmm.totalFrames) (free : s.Free frame) :
    ∀ place ∈ s.bitmapBytes, place < frame * pageSize ∨ frame * pageSize + pageSize ≤ place := by
  have wide : (frame + 1) * pageSize = frame * pageSize + pageSize := Nat.succ_mul _ _
  intro place inBitmap
  by_contra inside
  refine space.free_not_bitmap inMemory free ?_ ?_ inBitmap <;> omega

/-- A frame that has been taken can serve as a table. -/
theorem isTable_of_takes {frame : Nat} (space : FrameSpace s 0 reserved)
    (takes : Takes s s' {frame}) : IsTable s' (frame * pageSize) where
  aligned := Nat.mul_mod_left _ _
  not_free := by
    rw [Nat.mul_div_cancel frame (by decide)]
    exact fun _ => (takes.used_iff frame).mpr (Or.inr rfl)
  not_bitmap := by
    rcases takes.was_free frame rfl with ⟨inMemory, free⟩
    rw [takes.bitmapBytes_eq]
    exact bitmap_apart space inMemory free

/-- The entry that the walk meets is a link if it is no leaf. -/
theorem nextTable_of_not_leaf {mem : Mem} {path : List Nat} {table index : Nat}
    (found : tableAt mem root path = some table) (bound : index < 512)
    (noLeaf : ∀ e, ¬ Leaf mem root path index e) (present : IsPresent (entry mem table index)) :
    nextTable path.length (entry mem table index) =
      some (entry mem table index &&& pteAddrMask) := by
  cases next : nextTable path.length (entry mem table index) with
  | none => exact absurd ⟨table, found, bound, rfl, present, next⟩ (noLeaf _)
  | some child => rw [(nextTable_eq_some_iff.mp next).2]

/-! ## Creating a table -/

/-- The memory in which a cleared frame is linked behind an entry. -/
def graftMem (next table index : Nat) (mem : Mem) : Mem :=
  setEntry table index (next ||| ptePresent ||| pteWritable ||| pteUser) (clearTable next 512 mem)

theorem ensureTable_present {table index : Nat} (present : IsPresent (entry s.mem table index)) :
    ensureTable table index s = (entry s.mem table index &&& pteAddrMask, s) :=
  if_neg present

theorem ensureTable_absent {table index : Nat} (absent : ¬ IsPresent (entry s.mem table index)) :
    ensureTable table index s =
      ((pmmAllocFrame s).1, { (pmmAllocFrame s).2 with
        mem := graftMem (pmmAllocFrame s).1 table index (pmmAllocFrame s).2.mem }) :=
  if_pos (not_not.mp absent)

/-- A new table `fresh` without entries is linked behind an entry of `table`. -/
structure Grafted (s s' : PhysState) (reserved : Set Nat) (table index fresh : Nat) : Prop where
  space : FrameSpace s' 0 reserved
  total_eq : s'.pmm.totalFrames = s.pmm.totalFrames
  bitmap_eq : s'.bitmapBytes = s.bitmapBytes
  fresh_lt : fresh < 2 ^ 52
  fresh_ne : ∀ other, IsTable s other → other ≠ fresh
  fresh_table : IsTable s' fresh
  kept_table : ∀ other, IsTable s other → IsTable s' other
  linked : entry s'.mem table index = fresh + 7
  cleared : ∀ j, j < 512 → entry s'.mem fresh j = 0
  entry_eq : ∀ other j, IsTable s other → j < 512 → other ≠ table ∨ j ≠ index →
    entry s'.mem other j = entry s.mem other j
  mem_eq : ∀ place, place ∉ s.bitmapBytes → place < table ∨ table + pageSize ≤ place →
    place < fresh ∨ fresh + pageSize ≤ place → s'.mem place = s.mem place

theorem graftMem_apply_of_outside {next table index place : Nat} {mem : Mem} (bound : index < 512)
    (outTable : place < table ∨ table + pageSize ≤ place)
    (outNext : place < next ∨ next + pageSize ≤ place) :
    graftMem next table index mem place = mem place := by
  unfold pageSize at *
  unfold graftMem
  rw [setEntry_apply_of_outside (by omega), clearTable_apply_of_outside (by omega)]

/-- Neither the link nor the cleared frame lies in the bitmap. -/
theorem bitmap_graftMem {taken : PhysState} {table index frame : Nat}
    (space : FrameSpace s 0 reserved) (isTable : IsTable s table) (bound : index < 512)
    (takes : Takes s taken {frame}) :
    ∀ place ∈ taken.bitmapBytes,
      graftMem (frame * pageSize) table index taken.mem place = taken.mem place := by
  rcases takes.was_free frame rfl with ⟨inMemory, free⟩
  intro place inBitmap
  rw [takes.bitmapBytes_eq] at inBitmap
  exact graftMem_apply_of_outside bound (isTable.not_bitmap place inBitmap)
    (bitmap_apart space inMemory free place inBitmap)

/-- A frame that was free is linked as a new table. -/
theorem grafted_of_takes {taken : PhysState} {table index frame : Nat}
    (inv : TreeInv s root reserved) (isTable : IsTable s table) (bound : index < 512)
    (takes : Takes s taken {frame}) :
    Grafted s { taken with mem := graftMem (frame * pageSize) table index taken.mem } reserved
      table index (frame * pageSize) := by
  rcases takes.was_free frame rfl with ⟨inMemory, free⟩
  have aligned : frame * pageSize % pageSize = 0 := Nat.mul_mod_left _ _
  have wide : (frame + 1) * pageSize = frame * pageSize + pageSize := Nat.succ_mul _ _
  have last : (frame + 1) * pageSize ≤ 2 ^ 52 :=
    Nat.le_trans (Nat.mul_le_mul_right pageSize inMemory) inv.total_le
  have freshNe : ∀ other, IsTable s other → other ≠ frame * pageSize :=
    fun other isOther => isOther.not_fresh inMemory free
  have bitmapKept := bitmap_graftMem inv.space isTable bound takes
  have isFresh := isTable_of_takes inv.space takes
  have apart := (isTable.takes takes).apart isFresh (freshNe table isTable)
  have memEq : ∀ place, place ∉ s.bitmapBytes → place < table ∨ table + pageSize ≤ place →
      place < frame * pageSize ∨ frame * pageSize + pageSize ≤ place →
      graftMem (frame * pageSize) table index taken.mem place = s.mem place := by
    intro place notBitmap outTable outFresh
    rw [graftMem_apply_of_outside bound outTable outFresh]
    exact takes.mem_eq place notBitmap
  constructor
  case space => exact (inv.space.takes takes).congr rfl bitmapKept
  case total_eq => exact takes.total_eq
  case bitmap_eq => exact takes.bitmapBytes_eq
  case fresh_lt =>
    unfold pageSize at *
    omega
  case fresh_ne => exact freshNe
  case fresh_table => exact isFresh.congr rfl bitmapKept
  case kept_table => exact fun other isOther => (isOther.takes takes).congr rfl bitmapKept
  case linked =>
    have flags := @tableEntry_eq (frame * pageSize) aligned
    change entry (graftMem (frame * pageSize) table index taken.mem) table index = _
    unfold graftMem
    rw [entry_setEntry_same, flags]
    apply wrap64_of_lt
    unfold pageSize at *
    omega
  case cleared =>
    intro j small
    change entry (graftMem (frame * pageSize) table index taken.mem) (frame * pageSize) j = 0
    unfold graftMem
    rw [entry_setEntry_disjoint (by unfold pageSize at apart; unfold pageSize; omega)]
    exact entry_clearTable small
  case entry_eq =>
    intro other j isOther small different
    change entry (graftMem (frame * pageSize) table index taken.mem) other j = _
    have otherFresh := (isOther.takes takes).apart isFresh (freshNe other isOther)
    by_cases same : other = table
    · subst same
      have otherIndex : j ≠ index := different.resolve_left fun ne => ne rfl
      unfold graftMem
      rw [entry_setEntry_disjoint (by omega)]
      apply entry_congr small
      intro place low high
      rw [clearTable_apply_of_outside (by unfold pageSize at *; omega)]
      apply takes.mem_eq
      intro inBitmap
      rcases isOther.not_bitmap place inBitmap with before | behind <;> omega
    · apply entry_congr small
      intro place low high
      have tables := isOther.apart isTable same
      apply memEq
      · intro inBitmap
        rcases isOther.not_bitmap place inBitmap with before | behind <;> omega
      · omega
      · omega
  case mem_eq => exact memEq

section Graft

variable {path : List Nat} {table index fresh : Nat}

/-- The entry that is written links the new table. -/
theorem Grafted.link (grafted : Grafted s s' reserved table index fresh) {depth : Nat}
    (inner : depth < 3) : nextTable depth (entry s'.mem table index) = some fresh := by
  have aligned : fresh % 2 ^ 12 = 0 := grafted.fresh_table.aligned
  have present : IsPresent (fresh + 7) := by
    rw [isPresent_iff]
    omega
  rw [grafted.linked, nextTable_eq_some_iff]
  refine ⟨⟨inner, present, Or.inr (not_isLarge_link aligned (by decide))⟩, ?_⟩
  exact link_and_addrMask aligned grafted.fresh_lt (by decide)

variable (grafted : Grafted s s' reserved table index fresh) (inv : TreeInv s root reserved)
  (found : tableAt s.mem root path = some table)

include grafted inv found

/-- The other slots of the tables that the tree already had keep their entries. -/
theorem Grafted.slot_eq {q : List Nat} {t j : Nat} (reached : tableAt s.mem root q = some t)
    (elsewhere : ¬ (q = path ∧ j = index)) (small : j < 512) :
    entry s'.mem t j = entry s.mem t j := by
  apply grafted.entry_eq t j (inv.tables q t reached) small
  by_cases same : t = table
  · subst same
    exact Or.inr fun equal => elsewhere ⟨inv.unique q path t reached found, equal⟩
  · exact Or.inl same

variable (depth : path.length < 3) (bound : index < 512)
  (absent : ¬ IsPresent (entry s.mem table index))

include depth bound absent

/-- The tree has one more path. -/
theorem Grafted.tableAt_iff (q : List Nat) (t : Nat) :
    tableAt s'.mem root q = some t ↔
      tableAt s.mem root q = some t ∨ (q = path ++ [index] ∧ t = fresh) := by
  apply descend_graft found
  · unfold tableChild
    rw [if_pos bound]
    exact nextTable_absent absent
  · unfold tableChild
    rw [if_pos bound]
    exact grafted.link depth
  · intro q t j reached elsewhere
    unfold tableChild
    by_cases small : j < 512
    · rw [if_pos small, if_pos small, grafted.slot_eq inv found reached elsewhere small]
    · rw [if_neg small, if_neg small]
  · intro level j
    unfold tableChild
    by_cases small : j < 512
    · rw [if_pos small, grafted.cleared j small]
      exact nextTable_absent (by decide)
    · rw [if_neg small]

theorem Grafted.leaf_iff (p : List Nat) (j e : Nat) :
    Leaf s'.mem root p j e ↔ Leaf s.mem root p j e := by
  constructor
  · rintro ⟨t, reached, small, rfl, present, noLink⟩
    rcases (grafted.tableAt_iff inv found depth bound absent p t).mp reached with old | ⟨_, rfl⟩
    · by_cases here : p = path ∧ j = index
      · rcases here with ⟨rfl, rfl⟩
        rw [found] at old
        cases old
        rw [grafted.link depth] at noLink
        cases noLink
      · rw [grafted.slot_eq inv found old here small] at present noLink ⊢
        exact ⟨t, old, small, rfl, present, noLink⟩
    · rw [grafted.cleared j small] at present
      exact absurd rfl present
  · rintro ⟨t, old, small, rfl, present, noLink⟩
    have elsewhere : ¬ (p = path ∧ j = index) := by
      rintro ⟨rfl, rfl⟩
      rw [found] at old
      cases old
      exact absent present
    have same := grafted.slot_eq inv found old elsewhere small
    refine ⟨t, ?_, small, same, present, noLink⟩
    exact (grafted.tableAt_iff inv found depth bound absent p t).mpr (Or.inl old)

theorem Grafted.linksAdded : LinksAdded s.mem s'.mem root := by
  rintro p j e ⟨t, next, reached, small, rfl, link⟩
  rcases (grafted.tableAt_iff inv found depth bound absent p t).mp reached with old | ⟨_, rfl⟩
  · by_cases here : p = path ∧ j = index
    · rcases here with ⟨rfl, rfl⟩
      rw [found] at old
      cases old
      refine Or.inr ⟨?_, fresh, grafted.fresh_table.aligned, grafted.fresh_lt, grafted.linked⟩
      rw [tableAt_concat_eq, found, Option.bind_some, tableChild, if_pos small]
      exact nextTable_absent absent
    · rw [grafted.slot_eq inv found old here small] at link ⊢
      exact Or.inl ⟨t, next, old, small, rfl, link⟩
  · rw [grafted.cleared j small, nextTable_absent (by decide)] at link
    cases link

theorem Grafted.effect : TreeEffect s s' root reserved := by
  have graft := grafted.tableAt_iff inv found depth bound absent
  refine ⟨⟨grafted.space, ?_, ?_, ?_⟩, grafted.bitmap_eq, ?_, ?_⟩
  · rw [grafted.total_eq]
    exact inv.total_le
  · apply inv.unique.graft _ graft
    exact fun q reached => grafted.fresh_ne fresh (inv.tables q fresh reached) rfl
  · intro q t reached
    rcases (graft q t).mp reached with old | ⟨_, rfl⟩
    · exact grafted.kept_table t (inv.tables q t old)
    · exact grafted.fresh_table
  · exact fun q t old => (graft q t).mpr (Or.inl old)
  · intro place notBitmap changed
    by_cases inTable : table ≤ place ∧ place < table + pageSize
    · exact ⟨path, table, (graft path table).mpr (Or.inl found), inTable⟩
    · refine ⟨path ++ [index], fresh, (graft _ _).mpr (Or.inr ⟨rfl, rfl⟩), ?_⟩
      by_contra inFresh
      apply changed
      apply grafted.mem_eq place notBitmap <;> omega

end Graft

/-- The call of `pmm_alloc_frame` that an absent entry makes succeeds. -/
def EntryServed (table index : Nat) (s : PhysState) : Prop :=
  ¬ IsPresent (entry s.mem table index) → (pmmAllocFrame s).1 ≠ 0

/-- The free frame `frame` becomes the table behind an absent entry. -/
structure CreatesTable (s : PhysState) (reserved : Set Nat) (table index frame : Nat) : Prop where
  inMemory : frame < s.pmm.totalFrames
  free : s.Free frame
  nonzero : frame ≠ 0
  allocated : (pmmAllocFrame s).1 = frame * pageSize
  address : (ensureTable table index s).1 = frame * pageSize
  counted : (ensureTable table index s).2.pmm.usedFrames = s.pmm.usedFrames + 1
  used_mono : ∀ other, other < s.pmm.totalFrames → s.Used other →
    (ensureTable table index s).2.Used other
  grafted : Grafted s (ensureTable table index s).2 reserved table index (frame * pageSize)

/-- An absent entry gets a table, unless no frame is left. -/
theorem TreeInv.ensureTable_cases (inv : TreeInv s root reserved) {table index : Nat}
    (isTable : IsTable s table) (bound : index < 512)
    (absent : ¬ IsPresent (entry s.mem table index)) :
    (pmmAllocFrame s = (0, s) ∧ ∀ frame, frame < s.pmm.totalFrames → s.Used frame) ∨
      ∃ frame, CreatesTable s reserved table index frame := by
  rcases inv.space.allocFrame with failed | ⟨frame, inMemory, free, _, nonzero, address, takes⟩
  · exact Or.inl failed
  · have created := ensureTable_absent absent
    have bitmapKept := bitmap_graftMem inv.space isTable bound takes
    rw [address] at created
    refine Or.inr ⟨frame, ?_⟩
    constructor
    case inMemory => exact inMemory
    case free => exact free
    case nonzero => exact nonzero
    case allocated => exact address
    case address => rw [created]
    case counted =>
      rw [created]
      exact takes.usedFrames_succ inv.space.pmm
    case used_mono =>
      intro other otherLt wasUsed
      rw [← takes.total_eq] at otherLt
      rw [created]
      exact (@used_congr (pmmAllocFrame s).2 { (pmmAllocFrame s).2 with
        mem := graftMem (frame * pageSize) table index (pmmAllocFrame s).2.mem } rfl bitmapKept _
        otherLt).mpr ((takes.used_iff other).mpr (Or.inl wasUsed))
    case grafted =>
      rw [created]
      exact grafted_of_takes inv isTable bound takes

/-- What creating tables on the way to `table` does: the leaves are the same, and the
links are the old ones and new ones. -/
structure Ensured (s s' : PhysState) (root : Nat) (reserved : Set Nat) (path : List Nat)
    (table : Nat) : Prop where
  effect : TreeEffect s s' root reserved
  found : tableAt s'.mem root path = some table
  leaf_iff : ∀ p j e, Leaf s'.mem root p j e ↔ Leaf s.mem root p j e
  links : LinksAdded s.mem s'.mem root

theorem LinksAdded.refl (mem : Mem) (root : Nat) : LinksAdded mem mem root :=
  fun _ _ _ link => Or.inl link

theorem LinksAdded.trans {mem mem' mem'' : Mem} (first : LinksAdded mem mem' root)
    (mono : ∀ path table, tableAt mem root path = some table → tableAt mem' root path = some table)
    (second : LinksAdded mem' mem'' root) : LinksAdded mem mem'' root := by
  intro p j e link
  rcases second p j e link with old | ⟨empty, new⟩
  · exact first p j e old
  · refine Or.inr ⟨?_, new⟩
    cases reached : tableAt mem root (p ++ [j]) with
    | none => rfl
    | some table =>
        rw [mono _ _ reached] at empty
        cases empty

theorem Ensured.trans {path path' : List Nat} {table table' : Nat}
    (first : Ensured s s' root reserved path table)
    (second : Ensured s' s'' root reserved path' table') :
    Ensured s s'' root reserved path' table' where
  effect := first.effect.trans second.effect
  found := second.found
  leaf_iff := fun p j e => (second.leaf_iff p j e).trans (first.leaf_iff p j e)
  links := first.links.trans first.effect.mono second.links

theorem Ensured.here (inv : TreeInv s root reserved) {path : List Nat} {table : Nat}
    (found : tableAt s.mem root path = some table) : Ensured s s root reserved path table where
  effect := TreeEffect.refl inv
  found := found
  leaf_iff := fun _ _ _ => Iff.rfl
  links := LinksAdded.refl _ _

theorem Grafted.ensured {path : List Nat} {table index fresh : Nat}
    (grafted : Grafted s s' reserved table index fresh) (inv : TreeInv s root reserved)
    (found : tableAt s.mem root path = some table) (depth : path.length < 3) (bound : index < 512)
    (absent : ¬ IsPresent (entry s.mem table index)) :
    Ensured s s' root reserved (path ++ [index]) fresh where
  effect := grafted.effect inv found depth bound absent
  found := (grafted.tableAt_iff inv found depth bound absent _ _).mpr (Or.inr ⟨rfl, rfl⟩)
  leaf_iff := grafted.leaf_iff inv found depth bound absent
  links := grafted.linksAdded inv found depth bound absent

/-- The table behind an entry that is no leaf, created if need be. -/
theorem TreeInv.ensureTable_spec (inv : TreeInv s root reserved) {path : List Nat}
    {table index : Nat} (found : tableAt s.mem root path = some table) (depth : path.length < 3)
    (bound : index < 512) (noLeaf : ∀ e, ¬ Leaf s.mem root path index e)
    (served : EntryServed table index s) :
    Ensured s (ensureTable table index s).2 root reserved (path ++ [index])
      (ensureTable table index s).1 := by
  by_cases present : IsPresent (entry s.mem table index)
  · rw [ensureTable_present present]
    apply Ensured.here inv
    exact tableAt_concat.mpr ⟨table, found, bound, nextTable_of_not_leaf found bound noLeaf present⟩
  · rcases inv.ensureTable_cases (inv.tables path table found) bound present with
      ⟨failed, _⟩ | ⟨frame, _, _, _, _, address, _, _, grafted⟩
    · exact absurd (congrArg Prod.fst failed) (served present)
    · rw [address]
      exact grafted.ensured inv found depth bound present

/-! ## Writing an entry of the last level -/

section Write

variable (inv : TreeInv s root reserved) {path : List Nat} {table index : Nat}
  (found : tableAt s.mem root path = some table)

include inv found

/-- The other slots of the tables keep their entries. -/
theorem TreeInv.entry_setEntry (value : Nat) {q : List Nat} {t j : Nat}
    (reached : tableAt s.mem root q = some t) (small : j < 512)
    (elsewhere : ¬ (q = path ∧ j = index)) (bound : index < 512) :
    entry (setEntry table index value s.mem) t j = entry s.mem t j := by
  by_cases same : t = table
  · subst same
    have other : j ≠ index := fun equal => elsewhere ⟨inv.unique q path t reached found, equal⟩
    exact entry_setEntry_disjoint (by omega)
  · have apart := (inv.tables q t reached).apart (inv.tables path table found) same
    apply entry_congr small
    intro place low high
    apply setEntry_apply_of_outside
    unfold pageSize at *
    omega

variable (last : path.length = 3) (bound : index < 512)

include last bound

/-- The last level has no tables below it. -/
theorem TreeInv.tableAt_setEntry (value : Nat) (q : List Nat) :
    tableAt (setEntry table index value s.mem) root q = tableAt s.mem root q := by
  apply descend_congr
  intro q t j reached
  unfold tableChild
  by_cases small : j < 512
  · rw [if_pos small, if_pos small]
    by_cases here : q = path ∧ j = index
    · have deep : ¬ q.length < 3 := by
        rw [here.1, last]
        exact Nat.lt_irrefl 3
      unfold nextTable
      rw [if_neg fun both => deep both.1, if_neg fun both => deep both.1]
    · rw [inv.entry_setEntry found value reached small here bound]
  · rw [if_neg small, if_neg small]

theorem TreeInv.link_setEntry {value : Nat} {p : List Nat} {j e : Nat}
    (link : Link (setEntry table index value s.mem) root p j e) : Link s.mem root p j e := by
  rcases link with ⟨t, next, reached, small, rfl, pointer⟩
  rw [inv.tableAt_setEntry found last bound] at reached
  have inner : p.length < 3 := (nextTable_eq_some_iff.mp pointer).1.1
  have elsewhere : ¬ (p = path ∧ j = index) := by
    rintro ⟨rfl, _⟩
    omega
  rw [inv.entry_setEntry found value reached small elsewhere bound] at pointer ⊢
  exact ⟨t, next, reached, small, rfl, pointer⟩

theorem TreeInv.setEntry_spec {value : Nat} (wide : value < 2 ^ 64) :
    TreeEffect s { s with mem := setEntry table index value s.mem } root reserved ∧
      LeafUpdated s.mem (setEntry table index value s.mem) root path index value := by
  have isTable := inv.tables path table found
  have written : entry (setEntry table index value s.mem) table index = value := by
    rw [entry_setEntry_same, wrap64_of_lt wide]
  have outside : ∀ place, place < table ∨ table + pageSize ≤ place →
      setEntry table index value s.mem place = s.mem place := by
    intro place away
    apply setEntry_apply_of_outside
    unfold pageSize at away
    omega
  have same := inv.tableAt_setEntry found last bound value
  have bitmap : ∀ place ∈ s.bitmapBytes, setEntry table index value s.mem place = s.mem place :=
    fun place inBitmap => outside place (isTable.not_bitmap place inBitmap)
  refine ⟨⟨⟨inv.space.congr rfl bitmap, inv.total_le, ?_, ?_⟩, rfl, ?_, ?_⟩, ?_⟩
  · intro p q t reachedP reachedQ
    exact inv.unique p q t ((same p).symm.trans reachedP) ((same q).symm.trans reachedQ)
  · intro q t reached
    exact (inv.tables q t ((same q).symm.trans reached)).congr rfl bitmap
  · exact fun q t reached => (same q).trans reached
  · intro place _ changed
    refine ⟨path, table, (same path).trans found, ?_⟩
    by_contra away
    exact changed (outside place (by omega))
  · intro p j e
    by_cases here : p = path ∧ j = index
    · rw [if_pos here]
      rcases here with ⟨rfl, rfl⟩
      constructor
      · rintro ⟨t, reached, _, rfl, present, _⟩
        rw [same p, found] at reached
        cases reached
        exact ⟨written, present⟩
      · rintro ⟨rfl, present⟩
        refine ⟨table, (same p).trans found, bound, written, present, ?_⟩
        unfold nextTable
        exact if_neg fun both => absurd both.1 (by omega)
    · rw [if_neg here]
      constructor
      · rintro ⟨t, reached, small, rfl, present, noLink⟩
        have before := (same p).symm.trans reached
        rw [inv.entry_setEntry found value before small here bound] at present noLink ⊢
        exact ⟨t, before, small, rfl, present, noLink⟩
      · rintro ⟨t, reached, small, rfl, present, noLink⟩
        refine ⟨t, (same p).trans reached, small, ?_, present, noLink⟩
        exact inv.entry_setEntry found value reached small here bound

end Write

end Trees

end Paging
end AuraKernel
