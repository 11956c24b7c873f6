import AuraKernel.Paging.KernelSpace
import AuraKernel.Paging.PageMap

namespace AuraKernel
namespace Paging

open Machine
open Physical

/-!
# Access rights

The processor grants at an address what all four levels of its walk allow.
`vmm_map_page` writes the flags of a request to the last level only, and to the
upper levels when it creates them.  It creates them open, but the two links of
`boot/entry64.S` above the first gigabyte lack the user bit: a page of the first
512 GiB that is mapped for the user stays closed to it.
-/

def pteNx : Nat := 2 ^ 63

structure Rights where
  user : Bool
  write : Bool
  noExecute : Bool
deriving DecidableEq, Repr

/-- The rights that an entry states, or that the flags of a request ask for. -/
def entryRights (e : Nat) : Rights where
  user := e &&& pteUser ≠ 0
  write := e &&& pteWritable ≠ 0
  noExecute := e &&& pteNx ≠ 0

/-- What two levels grant together. -/
def Rights.meet (upper lower : Rights) : Rights where
  user := upper.user && lower.user
  write := upper.write && lower.write
  noExecute := upper.noExecute || lower.noExecute

/-- The rights that the page walk of the processor ends with. -/
def hwRights (mem : Mem) (pml4 virt : Nat) : Option Rights :=
  let pml4e := entry mem pml4 (pml4Index virt)
  if ¬ IsPresent pml4e then none
  else
    let pdpte := entry mem (pml4e &&& pteAddrMask) (pdptIndex virt)
    let rights := (entryRights pml4e).meet (entryRights pdpte)
    if ¬ IsPresent pdpte then none
    else if IsLarge pdpte then some rights
    else
      let pde := entry mem (pdpte &&& pteAddrMask) (pdIndex virt)
      let rights := rights.meet (entryRights pde)
      if ¬ IsPresent pde then none
      else if IsLarge pde then some rights
      else
        let pte := entry mem (pde &&& pteAddrMask) (ptIndex virt)
        if ¬ IsPresent pte then none
        else some (rights.meet (entryRights pte))

/-- Where an address space comes from: `boot/entry64.S`, or an empty top-level table. -/
inductive Origin
  | boot
  | empty
deriving DecidableEq, Repr

/-- The addresses that no large page of boot maps. -/
def Origin.Outside : Origin → Nat → Prop
  | .boot, virt => AboveIdentity virt
  | .empty, _ => True

/-- An address space before any call, with the frame manager set up. -/
inductive Begins (pml4 : Nat) : Origin → PhysState → Prop
  | boot {totalMemoryBytes kernelEnd : Nat} (layout : BootLayout pml4 totalMemoryBytes kernelEnd)
      (s : PhysState) : Begins pml4 .boot (bootKernel pml4 totalMemoryBytes kernelEnd s)
  | empty {s : PhysState} {reserved : Set Nat} (space : FrameSpace s 0 reserved)
      (totalLe : s.pmm.totalFrames * pageSize ≤ 2 ^ 52) (isTable : IsTable s pml4)
      (zero : ∀ index, index < 512 → entry s.mem pml4 index = 0) : Begins pml4 .empty s

/-- After `vmm_map_page(pml4, virt, phys, flags)` the processor grants at `virt` exactly what
the flags ask for, and calls for other pages do not change that, as long as they stay out of
the region of the large pages, where a call writes into memory that is no table. -/
def RightsEffective (pml4 : Nat) (outside : Nat → Prop) (virt phys flags : Nat) (s : PhysState) :
    Prop :=
  ∀ s', SpaceReachable pml4 (fun other => outside other ∧ pageKey other ≠ pageKey virt)
      (vmmMapPage pml4 virt phys flags s) s' →
    hwRights s'.mem pml4 virt = some (entryRights flags)

/-! ## Rights of entries -/

theorem entryRights_eq (e : Nat) :
    entryRights e = ⟨e.testBit 2, e.testBit 1, e.testBit 63⟩ := by
  have bit : ∀ index, decide (e &&& 2 ^ index ≠ 0) = e.testBit index := by
    intro index
    rw [Nat.and_two_pow]
    cases e.testBit index with
    | false => simp
    | true => simp
  unfold entryRights
  rw [← bit 2, ← bit 1, ← bit 63]
  rfl

/-- A page states the rights of the request. -/
theorem entryRights_pageEntry (phys flags : Nat) :
    entryRights (pageEntry phys flags) = entryRights flags := by
  have flag : ∀ index, index ≠ 0 → index < 64 → ¬ (12 ≤ index ∧ index < 52) →
      (pageEntry phys flags).testBit index = flags.testBit index := by
    intro index positive wide outside
    unfold pageEntry
    simp only [Nat.testBit_and, Nat.testBit_or, testBit_addrMask, testBit_ptePresent,
      testBit_not64 wide]
    simp only [not_and] at outside
    simp [positive]
    by_cases low : 12 ≤ index
    · simp [low, outside low]
    · simp [low]
  rw [entryRights_eq, entryRights_eq, flag 2 (by decide) (by decide) (by decide),
    flag 1 (by decide) (by decide) (by decide), flag 63 (by decide) (by decide) (by decide)]

/-- A link states the rights of its flags. -/
theorem entryRights_link {table flags : Nat} (aligned : table % 2 ^ 12 = 0)
    (low : table < 2 ^ 52) (small : flags < 2 ^ 12) :
    entryRights (table + flags) = entryRights flags := by
  have user : (table + flags) / 2 ^ 2 % 2 = flags / 2 ^ 2 % 2 := by omega
  have write : (table + flags) / 2 ^ 1 % 2 = flags / 2 ^ 1 % 2 := by omega
  have noExecute : (table + flags) / 2 ^ 63 % 2 = flags / 2 ^ 63 % 2 := by omega
  rw [entryRights_eq, entryRights_eq]
  simp only [Nat.testBit_eq_decide_div_mod_eq]
  rw [user, write, noExecute]

/-! ## The walk -/

/-- A page's walk grants what its three links and its entry grant together. -/
theorem hwRights_of_leaf {mem : Mem} {root virt e : Nat}
    (leaf : Leaf mem root (pagePath virt) (ptIndex virt) e) :
    ∃ pml4e pdpte pde, Link mem root [] (pml4Index virt) pml4e ∧
      Link mem root [pml4Index virt] (pdptIndex virt) pdpte ∧
      Link mem root [pml4Index virt, pdptIndex virt] (pdIndex virt) pde ∧
      hwRights mem root virt = some ((((entryRights pml4e).meet (entryRights pdpte)).meet
        (entryRights pde)).meet (entryRights e)) := by
  rcases leaf with ⟨pt, found, _, rfl, present, _⟩
  rcases (@tableAt_concat mem root [pml4Index virt, pdptIndex virt] (pdIndex virt) _).mp found with
    ⟨pd, foundPd, bound2, link2⟩
  rcases (@tableAt_concat mem root [pml4Index virt] (pdptIndex virt) _).mp foundPd with
    ⟨pdpt, foundPdpt, bound3, link3⟩
  rcases (@tableAt_concat mem root [] (pml4Index virt) _).mp foundPdpt with
    ⟨pml4, foundPml4, bound4, link4⟩
  cases foundPml4
  refine ⟨_, _, _, ⟨root, pdpt, rfl, bound4, rfl, link4⟩,
    ⟨pdpt, pd, foundPdpt, bound3, rfl, link3⟩, ⟨pd, pt, foundPd, bound2, rfl, link2⟩, ?_⟩
  rcases nextTable_eq_some_iff.mp link4 with ⟨⟨_, present4, _⟩, rfl⟩
  rcases nextTable_eq_some_iff.mp link3 with ⟨⟨_, present3, pointer3⟩, rfl⟩
  rcases nextTable_eq_some_iff.mp link2 with ⟨⟨_, present2, pointer2⟩, rfl⟩
  unfold hwRights
  dsimp only
  rw [if_neg (not_not.mpr present4), if_neg (not_not.mpr present3),
    if_neg (pointer3.resolve_left (by simp)), if_neg (not_not.mpr present2),
    if_neg (pointer2.resolve_left (by simp)), if_neg (not_not.mpr present)]

/-! ## Spaces -/

/-- Whether the link at a place, if there is one, is open to the user. -/
def Origin.opens : Origin → List Nat → Nat → Bool
  | .boot, path, index => !(index = 0 && (path = [] || path = [0]))
  | .empty, _, _ => true

/-- What calls outside the large pages of boot preserve. -/
structure SpaceInv (origin : Origin) (s : PhysState) (root : Nat) (reserved : Set Nat) :
    Prop where
  tree : TreeInv s root reserved
  shape : ∀ p j e, Leaf s.mem root p j e → p.length = 3 ∨ origin = .boot ∧ p = [0, 0]
  walk : origin = .boot → tableAt s.mem root [0, 0] ≠ none
  links : ∀ p j e, Link s.mem root p j e → entryRights e = ⟨origin.opens p j, true, false⟩

section Spaces

variable {origin : Origin} {s s' : PhysState} {root virt : Nat} {reserved : Set Nat}

/-- The leaf that `vmm_map_page` writes. -/
theorem LeafUpdated.leaf_pageEntry {mem mem' : Mem} {path : List Nat} {index phys flags : Nat}
    (updated : LeafUpdated mem mem' root path index (pageEntry phys flags)) :
    Leaf mem' root path index (pageEntry phys flags) := by
  refine (updated _ _ _).mpr ?_
  rw [if_pos ⟨rfl, rfl⟩]
  exact ⟨rfl, isPresent_pageEntry phys flags⟩

namespace SpaceInv

theorem noLargeLeaf (inv : SpaceInv origin s root reserved) (outside : origin.Outside virt) :
    NoLargeLeaf s.mem root virt := by
  apply noLargeLeaf_of_shape inv.shape
  rintro rfl
  exact AboveIdentity.path_ne outside

theorem opens_of_none (inv : SpaceInv origin s root reserved) {p : List Nat} {j : Nat}
    (empty : tableAt s.mem root (p ++ [j]) = none) : origin.opens p j = true := by
  cases origin with
  | empty => rfl
  | boot =>
      have walk := inv.walk rfl
      have first : tableAt s.mem root [0] ≠ none := by
        intro missing
        exact walk (tableAt_below_none missing 0)
      by_contra closed
      rw [Origin.opens, Bool.not_eq_true', Bool.not_eq_false, Bool.and_eq_true,
        Bool.or_eq_true, decide_eq_true_eq, decide_eq_true_eq, decide_eq_true_eq] at closed
      rcases closed with ⟨rfl, rfl | rfl⟩
      · exact first empty
      · exact walk empty

theorem update (inv : SpaceInv origin s root reserved) {value : Nat}
    (effect : TreeEffect s s' root reserved)
    (updated : LeafUpdated s.mem s'.mem root (pagePath virt) (ptIndex virt) value)
    (added : LinksAdded s.mem s'.mem root) : SpaceInv origin s' root reserved where
  tree := effect.inv
  shape := updated.places inv.shape (Or.inl rfl)
  walk := by
    intro boot
    cases found : tableAt s.mem root [0, 0] with
    | none => exact absurd found (inv.walk boot)
    | some table =>
        rw [effect.mono _ _ found]
        exact Option.some_ne_none table
  links := by
    intro p j e link
    rcases added p j e link with old | ⟨empty, next, aligned, low, rfl⟩
    · exact inv.links p j e old
    · rw [entryRights_link aligned low (by decide), inv.opens_of_none empty]
      rfl

/-- A call of `vmm_map_page` writes the entry of its page. -/
theorem map (inv : SpaceInv origin s root reserved) (outside : origin.Outside virt)
    (served : MapServed root virt s) (phys flags : Nat) :
    SpaceInv origin (vmmMapPage root virt phys flags s) root reserved ∧
      LeafUpdated s.mem (vmmMapPage root virt phys flags s).mem root (pagePath virt)
        (ptIndex virt) (pageEntry phys flags) := by
  have noLarge := inv.noLargeLeaf outside
  rcases inv.tree.map noLarge served phys flags with ⟨effect, updated⟩
  exact ⟨inv.update effect updated (inv.tree.map_links noLarge served phys flags), updated⟩

/-- What one call does. -/
theorem step (inv : SpaceInv origin s root reserved) {allowed : Nat → Prop}
    (outside : ∀ virt, allowed virt → origin.Outside virt)
    (step : SpaceStep root allowed s s') :
    SpaceInv origin s' root reserved ∧ ∃ virt value, allowed virt ∧
      LeafUpdated s.mem s'.mem root (pagePath virt) (ptIndex virt) value := by
  cases step with
  | map virt phys flags permitted served =>
      rcases inv.map (outside virt permitted) served phys flags with ⟨after, updated⟩
      exact ⟨after, virt, _, permitted, updated⟩
  | unmap virt permitted =>
      have noLarge := inv.noLargeLeaf (outside virt permitted)
      rcases inv.tree.unmap noLarge with ⟨effect, updated⟩
      refine ⟨inv.update effect updated ?_, virt, _, permitted, updated⟩
      exact fun p j e link => Or.inl (inv.tree.unmap_link noLarge link)

theorem run (inv : SpaceInv origin s root reserved)
    (reachable : SpaceReachable root origin.Outside s s') : SpaceInv origin s' root reserved := by
  induction reachable with
  | refl => exact inv
  | tail _ step inductionHypothesis => exact (inductionHypothesis.step (fun _ => id) step).1

/-- Calls for other pages keep a page's entry. -/
theorem run_elsewhere (inv : SpaceInv origin s root reserved) {e : Nat}
    (leaf : Leaf s.mem root (pagePath virt) (ptIndex virt) e)
    (reachable : SpaceReachable root
      (fun other => origin.Outside other ∧ pageKey other ≠ pageKey virt) s s') :
    SpaceInv origin s' root reserved ∧ Leaf s'.mem root (pagePath virt) (ptIndex virt) e := by
  induction reachable with
  | refl => exact ⟨inv, leaf⟩
  | tail _ step inductionHypothesis =>
      rcases inductionHypothesis with ⟨before, kept⟩
      rcases before.step (fun _ permitted => permitted.1) step with
        ⟨after, other, value, permitted, updated⟩
      refine ⟨after, (updated _ _ _).mpr ?_⟩
      rw [if_neg]
      · exact kept
      · exact fun same => permitted.2 ((pageKey_eq_iff other virt).mpr ⟨same.1.symm, same.2.symm⟩)

end SpaceInv

/-- The three links of a page are open unless the first one is boot's. -/
theorem Origin.opens_walk (origin : Origin) (first second third : Nat) :
    (origin.opens [] first && origin.opens [first] second && origin.opens [first, second] third) =
      !decide (origin = .boot ∧ first = 0) := by
  cases origin with
  | empty => simp [Origin.opens]
  | boot =>
      by_cases zero : first = 0
      · simp [Origin.opens, zero]
      · simp [Origin.opens, zero]

theorem SpaceInv.rights (inv : SpaceInv origin s root reserved) {phys flags : Nat}
    (leaf : Leaf s.mem root (pagePath virt) (ptIndex virt) (pageEntry phys flags)) :
    hwRights s.mem root virt =
      some (Rights.meet ⟨!decide (origin = .boot ∧ pml4Index virt = 0), true, false⟩
        (entryRights flags)) := by
  rcases hwRights_of_leaf leaf with ⟨pml4e, pdpte, pde, link4, link3, link2, walk⟩
  rw [walk, inv.links _ _ _ link4, inv.links _ _ _ link3, inv.links _ _ _ link2,
    entryRights_pageEntry, ← origin.opens_walk (pml4Index virt) (pdptIndex virt) (pdIndex virt)]
  rfl

/-- An upper part that grants writing and execution is all that is needed for a page without
the user bit. -/
theorem Rights.meet_eq_iff (user : Bool) (rights : Rights) :
    Rights.meet ⟨user, true, false⟩ rights = rights ↔ ¬ (user = false ∧ rights.user = true) := by
  rcases rights with ⟨lower, write, noExecute⟩
  cases user with
  | true => simp [Rights.meet]
  | false =>
      cases lower with
      | true => simp [Rights.meet]
      | false => simp [Rights.meet]

end Spaces

/-! ## Beginnings -/

section Beginnings

variable {bootPml4 totalMemoryBytes kernelEnd : Nat}

/-- The two links of boot allow everything but user access. -/
theorem BootLayout.link_rights (boot : BootLayout bootPml4 totalMemoryBytes kernelEnd)
    (s : PhysState) {p : List Nat} {j e : Nat}
    (link : Link (bootKernel bootPml4 totalMemoryBytes kernelEnd s).mem bootPml4 p j e) :
    entryRights e = ⟨Origin.boot.opens p j, true, false⟩ := by
  have aligned := boot.aligned
  have inImage := boot.inImage
  have low := boot.low
  rcases link with ⟨table, next, found, bound, rfl, pointer⟩
  rcases (boot.tableAt_iff s).mp found with ⟨rfl, rfl⟩ | ⟨rfl, rfl⟩ | ⟨rfl, rfl⟩
  · by_cases first : j = 0
    · subst first
      rw [boot.entry_eq s (by omega) bound,
        entry_bootPml4 aligned (Nat.le_trans inImage low) bound, if_pos rfl]
      exact @entryRights_link (table + 4096) 3 (by omega) (by omega) (by decide)
    · rw [(boot.slot_pml4 s bound).2 first] at pointer
      cases pointer
  · by_cases first : j = 0
    · subst first
      rw [boot.entry_eq s (by omega) bound,
        entry_bootPdpt aligned (Nat.le_trans inImage low) bound, if_pos rfl]
      exact @entryRights_link (bootPml4 + 8192) 3 (by omega) (by omega) (by decide)
    · rw [(boot.slot_pdpt s bound).2 first] at pointer
      cases pointer
  · cases (boot.slot_pd s bound).1.symm.trans pointer

/-- Right after boot only the reserved frames are in use. -/
theorem BootLayout.usedFrames_le (boot : BootLayout bootPml4 totalMemoryBytes kernelEnd)
    (s : PhysState) :
    (bootKernel bootPml4 totalMemoryBytes kernelEnd s).pmm.usedFrames ≤
      reservedFrames (ramSize totalMemoryBytes) kernelEnd := by
  rcases setupPmm_spec { s with mem := bootTables bootPml4 s.mem } boot.ram_lt kernelEnd with
    ⟨inv, total, _, usedIff⟩
  change (setupPmm _ _ _).pmm.usedFrames ≤ _
  rw [inv.used_eq, Nat.count_eq_card_filter_range]
  refine Nat.le_trans (Finset.card_le_card fun frame member => ?_)
    (Nat.le_of_eq (Finset.card_range _))
  rcases Finset.mem_filter.mp member with ⟨inMemory, used⟩
  rw [total] at inMemory
  exact Finset.mem_range.mpr ((usedIff frame (Finset.mem_range.mp inMemory)).mp used)

theorem Begins.inv {pml4 : Nat} {origin : Origin} {start : PhysState}
    (begins : Begins pml4 origin start) :
    ∃ reserved, SpaceInv origin start pml4 reserved := by
  cases begins with
  | boot layout s =>
      have inv := layout.inv s
      refine ⟨_, inv.tree, fun p j e leaf => ?_, fun _ => ?_, fun p j e => layout.link_rights s⟩
      · exact (inv.shape p j e leaf).imp_right fun first => ⟨rfl, first⟩
      · rw [inv.pd]
        exact Option.some_ne_none _
  | @empty _ reserved space totalLe isTable zero =>
      have inv := empty_inv space totalLe isTable zero
      refine ⟨reserved, inv.tree, fun p j e leaf => Or.inl (inv.deep p j e leaf), ?_, ?_⟩
      · exact fun impossible => by cases impossible
      · rintro p j e ⟨table, next, found, bound, rfl, pointer⟩
        rw [(tableAt_of_empty zero found).2, zero j bound, nextTable_absent (by decide)] at pointer
        cases pointer

end Beginnings

/-- In every address space that calls outside the large pages of boot have made, a mapping
grants what it asks for, and keeps granting it under further such calls, unless it asks for
user access and the first link of its walk is boot's. -/
theorem reachable_rights_iff {origin : Origin} {pml4 virt : Nat} {start s : PhysState}
    (begins : Begins pml4 origin start)
    (reachable : SpaceReachable pml4 origin.Outside start s) (outside : origin.Outside virt)
    (served : MapServed pml4 virt s) (phys flags : Nat) :
    RightsEffective pml4 origin.Outside virt phys flags s ↔
      ¬ (origin = .boot ∧ pml4Index virt = 0 ∧ flags &&& pteUser ≠ 0) := by
  rcases begins.inv with ⟨reserved, startInv⟩
  rcases (startInv.run reachable).map outside served phys flags with ⟨mapped, updated⟩
  have leaf := updated.leaf_pageEntry
  have closed : ¬ (origin = .boot ∧ pml4Index virt = 0 ∧ flags &&& pteUser ≠ 0) ↔
      Rights.meet ⟨!decide (origin = .boot ∧ pml4Index virt = 0), true, false⟩
        (entryRights flags) = entryRights flags := by
    rw [Rights.meet_eq_iff, Bool.not_eq_false', decide_eq_true_eq, and_assoc]
    exact not_congr (and_congr_right fun _ => and_congr_right fun _ => decide_eq_true_iff.symm)
  rw [closed]
  constructor
  · intro effective
    exact Option.some.inj ((mapped.rights leaf).symm.trans
      (effective _ Relation.ReflTransGen.refl))
  · intro granted s' later
    rcases mapped.run_elsewhere leaf later with ⟨after, kept⟩
    rw [after.rights kept, granted]

/-- In the empty address space of the machine of eight frames. -/
theorem reachable_rights_iff_small :
    RightsEffective 8192 Origin.empty.Outside 0x400000 0x5000 7 smallMachine :=
  (reachable_rights_iff
    (Begins.empty smallMachine_inv.2.tree.space smallMachine_total smallMachine_inv.1
      smallMachine_zero)
    Relation.ReflTransGen.refl trivial smallMachine_served 0x5000 7).mpr (by decide)

/-- After boot, a page at 1 GiB that is mapped for the user can only be used by the kernel. -/
theorem not_rightsEffective_boot :
    Begins 0x110000 .boot smallKernel ∧ AboveIdentity 0x40000000 ∧
      MapServed 0x110000 0x40000000 smallKernel ∧ entryRights 7 = ⟨true, true, false⟩ ∧
      hwRights (vmmMapPage 0x110000 0x40000000 0x300000 7 smallKernel).mem 0x110000 0x40000000 =
        some ⟨false, true, false⟩ ∧
      ¬ RightsEffective 0x110000 AboveIdentity 0x40000000 0x300000 7 smallKernel := by
  have begins : Begins 0x110000 .boot smallKernel := Begins.boot smallKernel_layout _
  have above : AboveIdentity 0x40000000 := by decide
  rcases begins.inv with ⟨reserved, inv⟩
  have served : MapServed 0x110000 0x40000000 smallKernel := by
    apply (inv.tree.mapServed_iff (inv.noLargeLeaf above)).mpr
    have missing := missingTables_le smallKernel.mem 0x110000 (pagePath 0x40000000)
    have used := smallKernel_layout.usedFrames_le ⟨fun _ => 0, ⟨0, 0, 0, 0⟩⟩
    rw [show reservedFrames (ramSize 0x1000000) 0x120000 = 289 by decide, ← smallKernel] at used
    have total := smallKernel_layout.totalFrames_eq ⟨fun _ => 0, ⟨0, 0, 0, 0⟩⟩
    rw [show ramSize 0x1000000 / pageSize = 4096 by decide, ← smallKernel] at total
    have three : (pagePath 0x40000000).length = 3 := rfl
    omega
  rcases @SpaceInv.map _ _ _ _ _ inv above served 0x300000 7 with ⟨mapped, updated⟩
  have granted := mapped.rights updated.leaf_pageEntry
  have closed : Rights.meet ⟨!decide (Origin.boot = .boot ∧ pml4Index 0x40000000 = 0), true, false⟩
      (entryRights 7) = ⟨false, true, false⟩ := by decide
  rw [closed] at granted
  refine ⟨begins, above, served, by decide, granted, fun effective => ?_⟩
  have asked := effective _ Relation.ReflTransGen.refl
  rw [granted] at asked
  exact absurd asked (by decide)

end Paging
end AuraKernel
