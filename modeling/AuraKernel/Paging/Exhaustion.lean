import AuraKernel.Paging.PageMap

namespace AuraKernel
namespace Paging

open Machine
open Physical

/-!
# Running out of frames

`vmm_map_page` does not look at what `pmm_alloc_frame` returns.  The value 0
that reports exhaustion is the address of frame 0: the frame is cleared and
linked like a new table.  With as many free frames as tables that the page lacks
this does not happen; with fewer it always does.
-/

/-- The frames that are cleared and linked as tables along a path below a table. -/
def createdTables : Nat → List Nat → PhysState → List Nat
  | _, [], _ => []
  | table, index :: rest, s =>
      let (next, after) := ensureTable table index s
      if IsPresent (entry s.mem table index) then createdTables next rest after
      else next :: createdTables next rest after

/-- The tables that a call creates, in terms of the states before and after it. -/
structure CreatedFrom (s after : PhysState) (root : Nat) (created : List Nat) : Prop where
  free : ∀ next ∈ created, ∃ frame, frame < s.pmm.totalFrames ∧ s.Free frame ∧
    next = frame * pageSize
  reached : ∀ next ∈ created, ∃ q, tableAt after.mem root q = some next
  tables : ∀ q t, tableAt after.mem root q = some t → tableAt s.mem root q = some t ∨ t ∈ created

/-- `vmm_map_page(pml4, virt, phys, flags)` maps its page or no page differently, the tables
that it installs and clears are frames that it gets from the frame manager, frame 0 never,
and no two entries share a table. -/
structure MapSafe (pml4 virt phys flags : Nat) (s : PhysState) : Prop where
  translated :
    hwTranslate (vmmMapPage pml4 virt phys flags s).mem pml4 virt =
        some ((phys &&& pteAddrMask) + virt % 2 ^ 12) ∨
      ∀ v, hwTranslate (vmmMapPage pml4 virt phys flags s).mem pml4 v = hwTranslate s.mem pml4 v
  created : CreatedFrom s (vmmMapPage pml4 virt phys flags s) pml4
    (createdTables pml4 (pagePath virt) s)
  installed : ∀ table ∈ createdTables pml4 (pagePath virt) s, table ≠ 0
  unshared : UniquePaths (tableChild (vmmMapPage pml4 virt phys flags s).mem) pml4

section Paths

variable {s : PhysState} {root table index : Nat} {reserved : Set Nat} {path rest : List Nat}

theorem createdTables_present (present : IsPresent (entry s.mem table index)) :
    createdTables table (index :: rest) s =
      createdTables (entry s.mem table index &&& pteAddrMask) rest s := by
  rw [createdTables, ensureTable_present present]
  exact if_pos present

theorem createdTables_absent (absent : ¬ IsPresent (entry s.mem table index)) :
    createdTables table (index :: rest) s =
      (ensureTable table index s).1 ::
        createdTables (ensureTable table index s).1 rest (ensureTable table index s).2 :=
  if_neg absent

/-- The calls of `pmm_alloc_frame` along a path succeed exactly if no new table lies in
frame 0. -/
theorem pathServed_iff_created :
    PathServed table path s ↔ ∀ next ∈ createdTables table path s, next ≠ 0 := by
  induction path generalizing table s with
  | nil => exact iff_of_true trivial fun _ member => absurd member List.not_mem_nil
  | cons index rest inductionHypothesis =>
      rw [PathServed, inductionHypothesis]
      by_cases present : IsPresent (entry s.mem table index)
      · rw [createdTables_present present, ensureTable_present present]
        exact and_iff_right fun absent => absurd present absent
      · have allocated : (ensureTable table index s).1 = (pmmAllocFrame s).1 := by
          rw [ensureTable_absent present]
        rw [createdTables_absent present, List.forall_mem_cons, allocated]
        exact and_congr_left' ⟨fun served => served present, fun nonzero _ => nonzero⟩

theorem TreeInv.createdFrom (inv : TreeInv s root reserved) (walk : WalkAt s root path rest table)
    (served : PathServed table rest s) :
    CreatedFrom s (ensurePath table rest s).2 root (createdTables table rest s) := by
  induction rest generalizing path table s with
  | nil =>
      refine ⟨?_, ?_, fun q t reached => Or.inl reached⟩
      · exact fun next member => absurd member List.not_mem_nil
      · exact fun next member => absurd member List.not_mem_nil
  | cons index rest inductionHypothesis =>
      have first := inv.ensureTable_walk walk served.1
      have below := inductionHypothesis first.effect.inv (walk.next first) served.2
      rw [ensurePath]
      by_cases present : IsPresent (entry s.mem table index)
      · rw [createdTables_present present]
        rw [ensureTable_present present] at below ⊢
        exact below
      · rw [createdTables_absent present]
        rcases inv.ensureTable_cases (inv.tables path table walk.found) walk.bound present with
          ⟨failed, _⟩ | ⟨frame, creates⟩
        · exact absurd (congrArg Prod.fst failed) (served.1 present)
        constructor
        case free =>
          intro next member
          rcases List.mem_cons.mp member with rfl | later
          · exact ⟨frame, creates.inMemory, creates.free, creates.address⟩
          · rcases below.free next later with ⟨other, inMemory, free, place⟩
            rw [creates.grafted.total_eq] at inMemory
            refine ⟨other, inMemory, (s.not_used_iff other).mp fun used => ?_, place⟩
            exact (PhysState.not_used_iff _ _).mpr free (creates.used_mono other inMemory used)
        case reached =>
          intro next member
          rcases List.mem_cons.mp member with rfl | later
          · refine ⟨path ++ [index], ?_⟩
            exact (first.effect.inv.ensurePath_spec (walk.next first) served.2).effect.mono _ _
              first.found
          · exact below.reached next later
        case tables =>
          intro q t reached
          rcases below.tables q t reached with before | later
          · rcases (creates.grafted.tableAt_iff inv walk.found walk.inner walk.bound present q
              t).mp before with old | ⟨_, rfl⟩
            · exact Or.inl old
            · exact Or.inr (List.mem_cons.mpr (Or.inl creates.address.symm))
          · exact Or.inr (List.mem_cons_of_mem _ later)

end Paths

section Calls

variable {s : PhysState} {pml4 virt : Nat} {reserved : Set Nat}

theorem TreeInv.mapSafe (inv : TreeInv s pml4 reserved) (noLarge : NoLargeLeaf s.mem pml4 virt)
    (served : MapServed pml4 virt s) (phys flags : Nat) : MapSafe pml4 virt phys flags s := by
  have path := Paging.mapServed_iff.mp served
  have ensured := inv.ensurePt_spec noLarge served
  have created := inv.createdFrom (WalkAt.start noLarge) path
  rcases inv.map noLarge served phys flags with ⟨effect, updated⟩
  constructor
  case translated =>
    rw [updated.hwTranslate noLarge, if_pos rfl,
      if_pos (isPresent_pageEntry phys flags), pageEntry_and_addrMask]
    exact Or.inl rfl
  case created =>
    -- writing the page's entry changes no table
    have same : ∀ q, tableAt (vmmMapPage pml4 virt phys flags s).mem pml4 q =
        tableAt (ensurePt pml4 virt s).2.mem pml4 q :=
      ensured.effect.inv.tableAt_setEntry ensured.found rfl (ptIndex_lt virt) _
    refine ⟨created.free, fun next member => ?_, fun q t reached => ?_⟩
    · rcases created.reached next member with ⟨q, reached⟩
      exact ⟨q, (same q).trans reached⟩
    · exact created.tables q t ((same q).symm.trans reached)
  case installed => exact pathServed_iff_created.mp path
  case unshared => exact effect.inv.unique

/-- In every address space whose walk of `virt` passes tables only, `vmm_map_page` is safe if
and only if the manager has a free frame for every table that is missing. -/
theorem mapSafe_iff (inv : TreeInv s pml4 reserved) (noLarge : NoLargeLeaf s.mem pml4 virt)
    (phys flags : Nat) :
    MapSafe pml4 virt phys flags s ↔
      missingTables s.mem pml4 (pagePath virt) + s.pmm.usedFrames ≤ s.pmm.totalFrames := by
  rw [← inv.mapServed_iff noLarge]
  constructor
  · intro safe
    exact Paging.mapServed_iff.mpr (pathServed_iff_created.mpr safe.installed)
  · exact fun served => inv.mapSafe noLarge served phys flags

end Calls

/-! ## Frame 0 as a table -/

section Exhausted

variable {s : PhysState} {root table index : Nat} {reserved : Set Nat} {path rest : List Nat}

/-- Without a free frame, the table behind an absent entry is frame 0. -/
theorem ensureTable_exhausted (full : s.pmm.usedFrames ≥ s.pmm.totalFrames)
    (absent : ¬ IsPresent (entry s.mem table index)) :
    ensureTable table index s = (0, { s with mem := graftMem 0 table index s.mem }) := by
  rw [ensureTable_absent absent, pmmAllocFrame, if_pos full]

theorem entry_graftMem_link (mem : Mem) (table index : Nat) :
    entry (graftMem 0 table index mem) table index = 7 := by
  unfold graftMem
  rw [entry_setEntry_same]
  rfl

theorem entry_graftMem_cleared {mem : Mem} {j : Nat} (small : j < 512)
    (elsewhere : pageSize ≤ table ∨ table = 0 ∧ j ≠ index) :
    entry (graftMem 0 table index mem) 0 j = 0 := by
  unfold graftMem
  unfold pageSize at elsewhere
  rw [entry_setEntry_disjoint (by omega)]
  exact entry_clearTable small

/-- Outside frame 0 only the link is written. -/
theorem entry_graftMem_high {mem : Mem} {other j : Nat} (high : pageSize ≤ other)
    (apart : other + 8 * j + 8 ≤ table + 8 * index ∨ table + 8 * index + 8 ≤ other + 8 * j) :
    entry (graftMem 0 table index mem) other j = entry mem other j := by
  unfold graftMem
  rw [entry_setEntry_disjoint apart]
  apply Mem.load64_congr
  intro place low _
  unfold pageSize at high
  exact clearTable_apply_of_outside (by omega)

end Exhausted

/-- A machine of three frames, all in use: the bitmap is in frame 1 and the top-level table
in frame 2. -/
def fullMachine : PhysState := ⟨fun place => if place = 4096 then 7 else 0, ⟨4096, 3, 3, 3⟩⟩

theorem fullMachine_map :
    vmmMapPage 8192 0x400000 0x5000 2 fullMachine =
      ⟨setEntry 0 0 0x5003
        (graftMem 0 0 2 (graftMem 0 0 0 (graftMem 0 8192 0 fullMachine.mem))),
        fullMachine.pmm⟩ := by
  have full : fullMachine.pmm.usedFrames ≥ fullMachine.pmm.totalFrames := by decide
  have absent4 : ¬ IsPresent (entry fullMachine.mem 8192 0) := by decide +kernel
  have absent3 : ¬ IsPresent (entry (graftMem 0 8192 0 fullMachine.mem) 0 0) := by
    rw [entry_graftMem_cleared (by decide) (Or.inl (by decide))]
    decide
  have absent2 : ¬ IsPresent
      (entry (graftMem 0 0 0 (graftMem 0 8192 0 fullMachine.mem)) 0 2) := by
    rw [entry_graftMem_cleared (by decide) (Or.inr ⟨rfl, by decide⟩)]
    decide
  have pdpt := ensureTable_exhausted full absent4
  have pd := @ensureTable_exhausted ⟨graftMem 0 8192 0 fullMachine.mem, fullMachine.pmm⟩ _ _ full
    absent3
  have pt := @ensureTable_exhausted
    ⟨graftMem 0 0 0 (graftMem 0 8192 0 fullMachine.mem), fullMachine.pmm⟩ _ _ full absent2
  have indices : pagePath 0x400000 = [0, 0, 2] := by decide
  rw [vmmMapPage_eq, ensurePt_eq, indices]
  simp only [ensurePath, pdpt, pd, pt]
  rfl

theorem fullMachine_inv : SessionInv 8192 {0, 1} ⟨fullMachine, fun _ => none⟩ := by
  have bitmap : fullMachine.bitmapBytes = Set.Ico 4096 4097 := rfl
  have used : ∀ frame, frame < 3 → fullMachine.Used frame := by
    unfold PhysState.Used
    decide
  have space : FrameSpace fullMachine 0 {0, 1} := by
    constructor
    case pmm => exact ⟨by decide, by decide, used, by unfold PhysState.Used; decide⟩
    case space_lt => decide
    case zero_reserved => exact Or.inl rfl
    case reserved_used => exact fun frame _ bound => used frame bound
    case bitmap_reserved =>
      intro frame _ place inBitmap low high
      rw [bitmap, Set.mem_Ico] at inBitmap
      unfold pageSize at low high
      exact Or.inr (show frame = 1 by omega)
  have isTable : IsTable fullMachine 8192 := by
    refine ⟨by decide, fun _ => used 2 (by decide), fun place inBitmap => ?_⟩
    rw [bitmap, Set.mem_Ico] at inBitmap
    omega
  exact empty_inv space (by decide) isTable (by decide +kernel)

/-- Mapping 4 MiB there does not map it, but an address above 2 GiB, through frame 0 as the
table of three levels. -/
theorem not_mapSafe_full :
    TreeInv fullMachine 8192 {0, 1} ∧ NoLargeLeaf fullMachine.mem 8192 0x400000 ∧
      ¬ MapSafe 8192 0x400000 0x5000 2 fullMachine ∧
      hwTranslate (vmmMapPage 8192 0x400000 0x5000 2 fullMachine).mem 8192 0x400000 = none ∧
      hwTranslate fullMachine.mem 8192 0x80400000 = none ∧
      hwTranslate (vmmMapPage 8192 0x400000 0x5000 2 fullMachine).mem 8192 0x80400000 =
        some 0x5000 := by
  have before : hwTranslate fullMachine.mem 8192 0x80400000 = none := by decide +kernel
  rcases (⟨_, rfl⟩ : ∃ after, vmmMapPage 8192 0x400000 0x5000 2 fullMachine = after) with
    ⟨after, same⟩
  have mapped := congrArg PhysState.mem (same.symm.trans fullMachine_map)
  have top : entry after.mem 8192 0 = 7 := by
    rw [mapped, entry_setEntry_disjoint (by decide), entry_graftMem_high (by decide) (by decide),
      entry_graftMem_high (by decide) (by decide), entry_graftMem_link]
  have page : entry after.mem 0 0 = 0x5003 := by
    rw [mapped, entry_setEntry_same]
    rfl
  have link : entry after.mem 0 2 = 7 := by
    rw [mapped, entry_setEntry_disjoint (by decide), entry_graftMem_link]
  have data : entry after.mem 0x5000 2 = 0 := by
    rw [mapped, entry_setEntry_disjoint (by decide), entry_graftMem_high (by decide) (by decide),
      entry_graftMem_high (by decide) (by decide), entry_graftMem_high (by decide) (by decide)]
    decide +kernel
  have address : 7 &&& pteAddrMask = 0 := by decide
  have address' : 0x5003 &&& pteAddrMask = 0x5000 := by decide
  have missed : hwTranslate after.mem 8192 0x400000 = none := by
    unfold hwTranslate
    simp only [show pml4Index 0x400000 = 0 from rfl, show pdptIndex 0x400000 = 0 from rfl,
      show pdIndex 0x400000 = 2 from rfl, top, address, page, address', data]
    rw [if_neg (by decide), if_neg (by decide), if_neg (by decide), if_pos (by decide)]
  have elsewhere : hwTranslate after.mem 8192 0x80400000 = some 0x5000 := by
    unfold hwTranslate
    simp only [show pml4Index 0x80400000 = 0 from rfl, show pdptIndex 0x80400000 = 2 from rfl,
      show pdIndex 0x80400000 = 2 from rfl, show ptIndex 0x80400000 = 0 from rfl, top, address,
      link, page, address']
    rfl
  rw [same]
  refine ⟨fullMachine_inv.tree, fullMachine_inv.noLargeLeaf 0x400000, fun safe => ?_, missed,
    before, elsewhere⟩
  rcases safe.translated with found | unchanged
  · rw [same, missed] at found
    cases found
  · have aliased := unchanged 0x80400000
    rw [same, elsewhere, before] at aliased
    cases aliased

/-- On the machine of eight frames a page that lacks three tables can be mapped. -/
theorem mapSafe_iff_small : MapSafe 8192 0x400000 0x5000 2 smallMachine :=
  (mapSafe_iff smallMachine_inv.2.tree (smallMachine_inv.2.noLargeLeaf 0x400000) _ _).mpr
    (by decide +kernel)

end Paging
end AuraKernel
