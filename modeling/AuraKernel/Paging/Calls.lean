import AuraKernel.Paging.AddressSpace

namespace AuraKernel
namespace Paging

open Machine
open Physical

/-!
# The calls

`vmm_map_page` makes its walk a path of tables, one graft for each table that is
missing, and writes the entry of the page; `vmm_unmap_page` clears that entry.
On a walk that meets no large page, either call updates one leaf.
-/

section Calls

variable {s s' : PhysState} {root : Nat} {reserved : Set Nat}

/-- The walk of `virt` meets no large leaf. -/
def NoLargeLeaf (mem : Mem) (root virt : Nat) : Prop :=
  ∀ e, ¬ Leaf mem root [] (pml4Index virt) e ∧ ¬ Leaf mem root [pml4Index virt] (pdptIndex virt) e ∧
    ¬ Leaf mem root [pml4Index virt, pdptIndex virt] (pdIndex virt) e

/-- Where only the large pages of boot are no small pages, a walk elsewhere meets none. -/
theorem noLargeLeaf_of_shape {mem : Mem} {virt : Nat} {boot : Prop}
    (shape : ∀ p j e, Leaf mem root p j e → p.length = 3 ∨ boot ∧ p = [0, 0])
    (outside : boot → [pml4Index virt, pdptIndex virt] ≠ [0, 0]) : NoLargeLeaf mem root virt := by
  intro e
  refine ⟨fun leaf => ?_, fun leaf => ?_, fun leaf => ?_⟩
  · exact absurd (shape _ _ _ leaf) (by simp)
  · exact absurd (shape _ _ _ leaf) (by simp)
  · rcases shape _ _ _ leaf with impossible | ⟨isBoot, first⟩
    · exact absurd impossible (by simp)
    · exact outside isBoot first

/-- The page-directory-pointer table of `virt`, created if need be. -/
def ensurePdpt (pml4 virt : Nat) (s : PhysState) : Nat × PhysState :=
  ensureTable pml4 (pml4Index virt) s

/-- The page directory of `virt`, created if need be. -/
def ensurePd (pml4 virt : Nat) (s : PhysState) : Nat × PhysState :=
  ensureTable (ensurePdpt pml4 virt s).1 (pdptIndex virt) (ensurePdpt pml4 virt s).2

/-- The page table of `virt`, created if need be. -/
def ensurePt (pml4 virt : Nat) (s : PhysState) : Nat × PhysState :=
  ensureTable (ensurePd pml4 virt s).1 (pdIndex virt) (ensurePd pml4 virt s).2

theorem vmmMapPage_eq (pml4 virt phys flags : Nat) (s : PhysState) :
    vmmMapPage pml4 virt phys flags s =
      { (ensurePt pml4 virt s).2 with
        mem := setEntry (ensurePt pml4 virt s).1 (ptIndex virt) (pageEntry phys flags)
          (ensurePt pml4 virt s).2.mem } := rfl

/-- Every call of `pmm_alloc_frame` in `vmm_map_page(pml4, virt, ..)` succeeds. -/
structure MapServed (pml4 virt : Nat) (s : PhysState) : Prop where
  pdpt : EntryServed pml4 (pml4Index virt) s
  pd : EntryServed (ensurePdpt pml4 virt s).1 (pdptIndex virt) (ensurePdpt pml4 virt s).2
  pt : EntryServed (ensurePd pml4 virt s).1 (pdIndex virt) (ensurePd pml4 virt s).2

/-- The tables along a path below a table, created if need be. -/
def ensurePath : Nat → List Nat → PhysState → Nat × PhysState
  | table, [], s => (table, s)
  | table, index :: rest, s =>
      ensurePath (ensureTable table index s).1 rest (ensureTable table index s).2

theorem ensurePt_eq (pml4 virt : Nat) (s : PhysState) :
    ensurePt pml4 virt s = ensurePath pml4 (pagePath virt) s := rfl

/-- Every call of `pmm_alloc_frame` along a path succeeds. -/
def PathServed : Nat → List Nat → PhysState → Prop
  | _, [], _ => True
  | table, index :: rest, s =>
      EntryServed table index s ∧
        PathServed (ensureTable table index s).1 rest (ensureTable table index s).2

theorem mapServed_iff {virt : Nat} : MapServed root virt s ↔ PathServed root (pagePath virt) s :=
  ⟨fun served => ⟨served.pdpt, served.pd, served.pt, trivial⟩,
    fun ⟨pdpt, pd, pt, _⟩ => ⟨pdpt, pd, pt⟩⟩

/-- Going on along the indices of a list, the walk meets no leaf. -/
def PathClear (mem : Mem) (root : Nat) : List Nat → List Nat → Prop
  | _, [] => True
  | path, index :: rest =>
      (∀ e, ¬ Leaf mem root path index e) ∧ PathClear mem root (path ++ [index]) rest

theorem NoLargeLeaf.pathClear {mem : Mem} {virt : Nat} (noLarge : NoLargeLeaf mem root virt) :
    PathClear mem root [] (pagePath virt) :=
  ⟨fun e => (noLarge e).1, fun e => (noLarge e).2.1, fun e => (noLarge e).2.2, trivial⟩

theorem PathClear.congr {mem mem' : Mem}
    (same : ∀ p j e, Leaf mem' root p j e ↔ Leaf mem root p j e) {path rest : List Nat}
    (clear : PathClear mem root path rest) : PathClear mem' root path rest := by
  induction rest generalizing path with
  | nil => trivial
  | cons index rest inductionHypothesis =>
      exact ⟨fun e leaf => clear.1 e ((same _ _ _).mp leaf), inductionHypothesis clear.2⟩

theorem pagePath_lt {virt index : Nat} (member : index ∈ pagePath virt) : index < 512 := by
  unfold pagePath at member
  simp only [List.mem_cons, List.not_mem_nil, or_false] at member
  rcases member with rfl | rfl | rfl
  · exact pml4Index_lt virt
  · exact pdptIndex_lt virt
  · exact pdIndex_lt virt

/-- A walk has reached `table` behind `path`, and meets no leaf on the rest of its way. -/
structure WalkAt (s : PhysState) (root : Nat) (path rest : List Nat) (table : Nat) : Prop where
  found : tableAt s.mem root path = some table
  depth : path.length + rest.length ≤ 3
  bounds : ∀ index ∈ rest, index < 512
  clear : PathClear s.mem root path rest

namespace WalkAt

variable {path rest : List Nat} {table index child : Nat}

theorem start {virt : Nat} (noLarge : NoLargeLeaf s.mem root virt) :
    WalkAt s root [] (pagePath virt) root :=
  ⟨rfl, Nat.le_refl 3, fun _ => pagePath_lt, noLarge.pathClear⟩

theorem inner (walk : WalkAt s root path (index :: rest) table) : path.length < 3 := by
  have depth := walk.depth
  rw [List.length_cons] at depth
  omega

theorem bound (walk : WalkAt s root path (index :: rest) table) : index < 512 :=
  walk.bounds index List.mem_cons_self

theorem next (walk : WalkAt s root path (index :: rest) table)
    (ensured : Ensured s s' root reserved (path ++ [index]) child) :
    WalkAt s' root (path ++ [index]) rest child where
  found := ensured.found
  depth := by
    have depth := walk.depth
    rw [List.length_cons] at depth
    rw [List.length_append, List.length_singleton]
    omega
  bounds := fun other member => walk.bounds other (List.mem_cons_of_mem _ member)
  clear := walk.clear.2.congr ensured.leaf_iff

end WalkAt

theorem TreeInv.ensureTable_walk (inv : TreeInv s root reserved) {path rest : List Nat}
    {table index : Nat} (walk : WalkAt s root path (index :: rest) table)
    (served : EntryServed table index s) :
    Ensured s (ensureTable table index s).2 root reserved (path ++ [index])
      (ensureTable table index s).1 :=
  inv.ensureTable_spec walk.found walk.inner walk.bound walk.clear.1 served

theorem TreeInv.ensurePath_spec (inv : TreeInv s root reserved) {path rest : List Nat} {table : Nat}
    (walk : WalkAt s root path rest table) (served : PathServed table rest s) :
    Ensured s (ensurePath table rest s).2 root reserved (path ++ rest)
      (ensurePath table rest s).1 := by
  induction rest generalizing path table s with
  | nil =>
      rw [List.append_nil]
      exact Ensured.here inv walk.found
  | cons index rest inductionHypothesis =>
      have first := inv.ensureTable_walk walk served.1
      rw [ensurePath, List.append_cons]
      exact first.trans (inductionHypothesis first.effect.inv (walk.next first) served.2)

/-- The page table of an address whose walk meets no large leaf. -/
theorem TreeInv.ensurePt_spec (inv : TreeInv s root reserved) {virt : Nat}
    (noLarge : NoLargeLeaf s.mem root virt) (served : MapServed root virt s) :
    Ensured s (ensurePt root virt s).2 root reserved (pagePath virt) (ensurePt root virt s).1 := by
  rw [ensurePt_eq]
  exact inv.ensurePath_spec (WalkAt.start noLarge) (mapServed_iff.mp served)

/-- A call of `vmm_map_page` that meets no large leaf. -/
theorem TreeInv.map (inv : TreeInv s root reserved) {virt : Nat}
    (noLarge : NoLargeLeaf s.mem root virt) (served : MapServed root virt s) (phys flags : Nat) :
    TreeEffect s (vmmMapPage root virt phys flags s) root reserved ∧
      LeafUpdated s.mem (vmmMapPage root virt phys flags s).mem root (pagePath virt)
        (ptIndex virt) (pageEntry phys flags) := by
  have ensured := inv.ensurePt_spec noLarge served
  rcases ensured.effect.inv.setEntry_spec ensured.found rfl (ptIndex_lt virt)
    (pageEntry_lt phys flags) with ⟨effect, updated⟩
  rw [vmmMapPage_eq]
  refine ⟨ensured.effect.trans effect, fun p j e => ?_⟩
  refine (updated p j e).trans ?_
  rw [ensured.leaf_iff]

/-- Its new links all have the same flags. -/
theorem TreeInv.map_links (inv : TreeInv s root reserved) {virt : Nat}
    (noLarge : NoLargeLeaf s.mem root virt) (served : MapServed root virt s) (phys flags : Nat) :
    LinksAdded s.mem (vmmMapPage root virt phys flags s).mem root := by
  have ensured := inv.ensurePt_spec noLarge served
  rw [vmmMapPage_eq]
  intro p j e link
  exact ensured.links p j e
    (ensured.effect.inv.link_setEntry ensured.found rfl (ptIndex_lt virt) link)

/-- The table behind an entry that is no leaf. -/
theorem tableAt_next {mem : Mem} {path : List Nat} {table index : Nat}
    (found : tableAt mem root path = some table) (bound : index < 512)
    (noLeaf : ∀ e, ¬ Leaf mem root path index e) :
    tableAt mem root (path ++ [index]) =
      if entry mem table index &&& ptePresent = 0 then none
      else some (entry mem table index &&& pteAddrMask) := by
  by_cases present : IsPresent (entry mem table index)
  · rw [if_neg present]
    exact tableAt_concat.mpr ⟨table, found, bound, nextTable_of_not_leaf found bound noLeaf present⟩
  · rw [if_pos (not_not.mp present)]
    cases reached : tableAt mem root (path ++ [index]) with
    | none => rfl
    | some next =>
        rcases tableAt_concat.mp reached with ⟨table', found', _, link⟩
        rw [found] at found'
        cases found'
        rw [nextTable_absent present] at link
        cases link

theorem tableAt_below_none {mem : Mem} {path : List Nat} (none : tableAt mem root path = none)
    (index : Nat) : tableAt mem root (path ++ [index]) = Option.none := by
  rw [tableAt_concat_eq, none, Option.bind_none]

/-- `vmm_unmap_page` clears the entry of the page, if the page has a table. -/
theorem vmmUnmapPage_eq {mem : Mem} {virt : Nat} (noLarge : NoLargeLeaf mem root virt) :
    vmmUnmapPage root virt mem =
      match tableAt mem root (pagePath virt) with
      | none => mem
      | some pt =>
          if entry mem pt (ptIndex virt) &&& ptePresent = 0 then mem
          else setEntry pt (ptIndex virt) 0 mem := by
  have path4 := @tableAt_next root mem [] root (pml4Index virt) rfl (pml4Index_lt virt)
    fun e => (noLarge e).1
  unfold vmmUnmapPage
  by_cases absent4 : entry mem root (pml4Index virt) &&& ptePresent = 0
  · rw [if_pos absent4] at path4 ⊢
    have below := tableAt_below_none (tableAt_below_none path4 (pdptIndex virt)) (pdIndex virt)
    change tableAt mem root (pagePath virt) = none at below
    rw [below]
  rw [if_neg absent4] at path4 ⊢
  have path3 := tableAt_next path4 (pdptIndex_lt virt) fun e => (noLarge e).2.1
  dsimp only
  by_cases absent3 : entry mem (entry mem root (pml4Index virt) &&& pteAddrMask)
      (pdptIndex virt) &&& ptePresent = 0
  · rw [if_pos absent3] at path3 ⊢
    have below := tableAt_below_none path3 (pdIndex virt)
    change tableAt mem root (pagePath virt) = none at below
    rw [below]
  rw [if_neg absent3] at path3 ⊢
  have path2 := tableAt_next path3 (pdIndex_lt virt) fun e => (noLarge e).2.2
  change tableAt mem root (pagePath virt) = _ at path2
  rw [path2]
  by_cases absent2 : entry mem (entry mem (entry mem root (pml4Index virt) &&& pteAddrMask)
      (pdptIndex virt) &&& pteAddrMask) (pdIndex virt) &&& ptePresent = 0
  · rw [if_pos absent2, if_pos absent2]
  · rw [if_neg absent2, if_neg absent2]

/-- A call of `vmm_unmap_page` that meets no large leaf. -/
theorem TreeInv.unmap (inv : TreeInv s root reserved) {virt : Nat}
    (noLarge : NoLargeLeaf s.mem root virt) :
    TreeEffect s { s with mem := vmmUnmapPage root virt s.mem } root reserved ∧
      LeafUpdated s.mem (vmmUnmapPage root virt s.mem) root (pagePath virt) (ptIndex virt) 0 := by
  -- without an entry for the page there is nothing to do
  have idle : (∀ e, ¬ Leaf s.mem root (pagePath virt) (ptIndex virt) e) →
      TreeEffect s { s with mem := s.mem } root reserved ∧
        LeafUpdated s.mem s.mem root (pagePath virt) (ptIndex virt) 0 := by
    intro noLeaf
    refine ⟨TreeEffect.refl inv, fun p j e => ?_⟩
    by_cases here : p = pagePath virt ∧ j = ptIndex virt
    · rw [if_pos here]
      rcases here with ⟨rfl, rfl⟩
      apply iff_of_false (noLeaf e)
      rintro ⟨rfl, present⟩
      exact present rfl
    · rw [if_neg here]
  rw [vmmUnmapPage_eq noLarge]
  cases found : tableAt s.mem root (pagePath virt) with
  | none =>
      apply idle
      rintro e ⟨table, reached, _⟩
      rw [found] at reached
      cases reached
  | some pt =>
      dsimp only
      by_cases absent : entry s.mem pt (ptIndex virt) &&& ptePresent = 0
      · rw [if_pos absent]
        apply idle
        rintro e ⟨table, reached, _, rfl, present, _⟩
        rw [found] at reached
        cases reached
        exact present absent
      · rw [if_neg absent]
        exact inv.setEntry_spec found rfl (ptIndex_lt virt) (by decide)

theorem TreeInv.unmap_link (inv : TreeInv s root reserved) {virt : Nat}
    (noLarge : NoLargeLeaf s.mem root virt) {p : List Nat} {j e : Nat}
    (link : Link (vmmUnmapPage root virt s.mem) root p j e) : Link s.mem root p j e := by
  rw [vmmUnmapPage_eq noLarge] at link
  cases found : tableAt s.mem root (pagePath virt) with
  | none =>
      rw [found] at link
      exact link
  | some pt =>
      rw [found] at link
      dsimp only at link
      split at link
      · exact link
      · exact inv.link_setEntry found rfl (ptIndex_lt virt) link

/-! ## The hardware translation -/

/-- An update adds no leaf at a place of another kind. -/
theorem LeafUpdated.places {mem mem' : Mem} {path : List Nat} {index value : Nat}
    {place : List Nat → Prop} (updated : LeafUpdated mem mem' root path index value)
    (places : ∀ p j e, Leaf mem root p j e → place p) (here : place path) (p : List Nat) (j e : Nat)
    (leaf : Leaf mem' root p j e) : place p := by
  have before := (updated p j e).mp leaf
  by_cases same : p = path ∧ j = index
  · rw [same.1]
    exact here
  · rw [if_neg same] at before
    exact places p j e before

/-- An updated page is translated anew, all other pages as before. -/
theorem LeafUpdated.hwTranslate {mem mem' : Mem} {virt value : Nat}
    (updated : LeafUpdated mem mem' root (pagePath virt) (ptIndex virt) value)
    (noLarge : NoLargeLeaf mem root virt) (other : Nat) :
    hwTranslate mem' root other =
      if pageKey other = pageKey virt then
        (if IsPresent value then some ((value &&& pteAddrMask) + other % 2 ^ 12) else none)
      else hwTranslate mem root other := by
  have upper : ∀ p j e, p.length ≠ 3 → (Leaf mem' root p j e ↔ Leaf mem root p j e) := by
    intro p j e short
    refine (updated p j e).trans ?_
    rw [if_neg]
    rintro ⟨rfl, _⟩
    exact short rfl
  have upper1 := fun e => upper [pml4Index other] (pdptIndex other) e (by simp)
  have upper2 := fun e => upper [pml4Index other, pdptIndex other] (pdIndex other) e (by simp)
  apply Option.ext
  intro phys
  rw [hwTranslate_eq_some_iff]
  simp only [upper1, upper2]
  by_cases same : pageKey other = pageKey virt
  · rw [if_pos same]
    rcases (pageKey_eq_iff other virt).mp same with ⟨path, index⟩
    have indices := path
    unfold pagePath at indices
    simp only [List.cons.injEq, and_true] at indices
    have no1 : ∀ e, ¬ Leaf mem root [pml4Index other] (pdptIndex other) e := by
      rw [indices.1, indices.2.1]
      exact fun e => (noLarge e).2.1
    have no2 : ∀ e, ¬ Leaf mem root [pml4Index other, pdptIndex other] (pdIndex other) e := by
      rw [indices.1, indices.2.1, indices.2.2]
      exact fun e => (noLarge e).2.2
    have atPage : ∀ e, Leaf mem' root (pagePath other) (ptIndex other) e ↔
        e = value ∧ IsPresent e := by
      intro e
      refine (updated _ _ e).trans ?_
      rw [if_pos ⟨path, index⟩]
    simp only [no1, no2, atPage, false_and, exists_false, false_or]
    by_cases present : IsPresent value
    · rw [if_pos present, Option.some.injEq]
      constructor
      · rintro ⟨e, ⟨rfl, _⟩, same⟩
        exact same
      · exact fun same => ⟨value, ⟨rfl, present⟩, same⟩
    · rw [if_neg present]
      constructor
      · rintro ⟨e, ⟨rfl, isPresent⟩, _⟩
        exact absurd isPresent present
      · exact fun impossible => by cases impossible
  · rw [if_neg same, hwTranslate_eq_some_iff]
    have elsewhere : ∀ e, Leaf mem' root (pagePath other) (ptIndex other) e ↔
        Leaf mem root (pagePath other) (ptIndex other) e := by
      intro e
      refine (updated _ _ e).trans ?_
      rw [if_neg fun both => same ((pageKey_eq_iff other virt).mpr both)]
    simp only [elsewhere]

end Calls

end Paging
end AuraKernel
