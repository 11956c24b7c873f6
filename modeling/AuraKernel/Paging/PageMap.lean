import AuraKernel.Paging.MissingTables
import AuraKernel.Paging.Translation
import Mathlib.Logic.Relation

namespace AuraKernel
namespace Paging

open Machine
open Physical

/-!
# An address space as a finite map

An address space that starts with an empty top-level table stands for a map from
page keys to frames.  `vmm_map_page` and `vmm_unmap_page` update the map at one
key, whatever tables the pages share, and `vmm_virt_to_phys` looks the key up.
-/

/-- The memory and the frame manager, with the map that the address space stands for. -/
structure Session where
  phys : PhysState
  pages : Nat → Option Nat

/-- The session after `vmm_map_page(pml4, virt, phys, flags)`. -/
def Session.map (s : Session) (pml4 virt phys flags : Nat) : Session where
  phys := vmmMapPage pml4 virt phys flags s.phys
  pages := Function.update s.pages (pageKey virt) (some (phys &&& pteAddrMask))

/-- The session after `vmm_unmap_page(pml4, virt)`. -/
def Session.unmap (s : Session) (pml4 virt : Nat) : Session where
  phys := { s.phys with mem := vmmUnmapPage pml4 virt s.phys.mem }
  pages := Function.update s.pages (pageKey virt) none

/-- The calls, during which the manager does not run out of frames. -/
inductive Session.Step (pml4 : Nat) : Session → Session → Prop
  | map {s : Session} (virt phys flags : Nat) (served : MapServed pml4 virt s.phys) :
      Step pml4 s (s.map pml4 virt phys flags)
  | unmap {s : Session} (virt : Nat) : Step pml4 s (s.unmap pml4 virt)

/-- The sessions that can be reached from an empty address space. -/
def Session.Reachable (pml4 : Nat) (start : PhysState) : Session → Prop :=
  Relation.ReflTransGen (Session.Step pml4) { phys := start, pages := fun _ => none }

/-- What a map says about an address; 0 means not mapped. -/
def lookup (pages : Nat → Option Nat) (virt : Nat) : Nat :=
  match pages (pageKey virt) with
  | some frame => frame ||| (virt &&& 0xFFF)
  | none => 0

theorem lookup_update_of_ne (pages : Nat → Option Nat) (frame : Option Nat) {virt v : Nat}
    (different : pageKey v ≠ pageKey virt) :
    lookup (Function.update pages (pageKey virt) frame) v = lookup pages v := by
  unfold lookup
  rw [Function.update_of_ne different]

/-- `vmm_virt_to_phys` implements the map, and no call changes the translation of
a page with another key. -/
structure Refines (pml4 : Nat) (s : Session) : Prop where
  lookup_eq : ∀ v, vmmVirtToPhys s.phys.mem pml4 v = lookup s.pages v
  map_other : ∀ virt phys flags, MapServed pml4 virt s.phys → ∀ v, pageKey v ≠ pageKey virt →
    vmmVirtToPhys (s.map pml4 virt phys flags).phys.mem pml4 v = vmmVirtToPhys s.phys.mem pml4 v
  unmap_other : ∀ virt v, pageKey v ≠ pageKey virt →
    vmmVirtToPhys (s.unmap pml4 virt).phys.mem pml4 v = vmmVirtToPhys s.phys.mem pml4 v

/-- All leaves are on the last level, and they spell the map out. -/
structure SessionInv (pml4 : Nat) (reserved : Set Nat) (s : Session) : Prop where
  tree : TreeInv s.phys pml4 reserved
  deep : ∀ p j e, Leaf s.phys.mem pml4 p j e → p.length = 3
  aligned : ∀ key frame, s.pages key = some frame → frame % 2 ^ 12 = 0
  translated : ∀ v, hwTranslate s.phys.mem pml4 v =
    (s.pages (pageKey v)).map fun frame => frame + v % 2 ^ 12

section Runs

variable {s t : Session} {pml4 : Nat} {reserved : Set Nat}

namespace SessionInv

theorem noLargeLeaf (inv : SessionInv pml4 reserved s) (virt : Nat) :
    NoLargeLeaf s.phys.mem pml4 virt :=
  noLargeLeaf_of_shape (fun p j e leaf => Or.inl (inv.deep p j e leaf)) False.elim

/-- The software walk looks the key up. -/
theorem lookup_eq (inv : SessionInv pml4 reserved s) (v : Nat) :
    vmmVirtToPhys s.phys.mem pml4 v = lookup s.pages v := by
  have agrees : TranslationAgrees s.phys.mem pml4 v := by
    apply (translationAgrees_iff _ _ _).mpr
    refine ⟨fun e leaf => ?_, fun e leaf => ?_⟩
    · exact absurd leaf (inv.noLargeLeaf v e).2.1
    · exact absurd leaf (inv.noLargeLeaf v e).2.2
  rw [translationAgrees_iff_getD.mp agrees, inv.translated v]
  unfold lookup
  cases mapped : s.pages (pageKey v) with
  | none => rfl
  | some frame =>
      rw [show v &&& 0xFFF = v % 2 ^ 12 from Nat.and_two_pow_sub_one_eq_mod v 12]
      exact (or_of_aligned (inv.aligned _ _ mapped) (Nat.mod_lt _ (by decide))).symm

theorem update (inv : SessionInv pml4 reserved s) {phys : PhysState} {virt value : Nat}
    {frame : Option Nat} (effect : TreeEffect s.phys phys pml4 reserved)
    (updated : LeafUpdated s.phys.mem phys.mem pml4 (pagePath virt) (ptIndex virt) value)
    (aligned : ∀ f, frame = some f → f % 2 ^ 12 = 0)
    (stands : (if IsPresent value then some (value &&& pteAddrMask) else none) = frame) :
    SessionInv pml4 reserved ⟨phys, Function.update s.pages (pageKey virt) frame⟩ := by
  constructor
  case tree => exact effect.inv
  case deep => exact updated.places inv.deep rfl
  case aligned =>
    intro key f mapped
    dsimp only at mapped
    by_cases same : key = pageKey virt
    · subst same
      rw [Function.update_self] at mapped
      exact aligned f mapped
    · rw [Function.update_of_ne same] at mapped
      exact inv.aligned key f mapped
  case translated =>
    intro v
    dsimp only
    rw [updated.hwTranslate (inv.noLargeLeaf virt) v]
    by_cases same : pageKey v = pageKey virt
    · rw [if_pos same, same, Function.update_self, ← stands]
      by_cases present : IsPresent value
      · rw [if_pos present, if_pos present]
        rfl
      · rw [if_neg present, if_neg present]
        rfl
    · rw [if_neg same, Function.update_of_ne same]
      exact inv.translated v

theorem map (inv : SessionInv pml4 reserved s) {virt : Nat} (served : MapServed pml4 virt s.phys)
    (phys flags : Nat) : SessionInv pml4 reserved (s.map pml4 virt phys flags) := by
  rcases inv.tree.map (inv.noLargeLeaf virt) served phys flags with ⟨effect, updated⟩
  apply inv.update effect updated
  · rintro f mapped
    cases mapped
    rw [and_addrMask]
    exact Nat.mul_mod_left _ _
  · rw [if_pos (isPresent_pageEntry phys flags), pageEntry_and_addrMask]

theorem unmap (inv : SessionInv pml4 reserved s) (virt : Nat) :
    SessionInv pml4 reserved (s.unmap pml4 virt) := by
  rcases inv.tree.unmap (inv.noLargeLeaf virt) with ⟨effect, updated⟩
  apply inv.update effect updated
  · exact fun f impossible => by cases impossible
  · exact if_neg (by decide)

theorem step (inv : SessionInv pml4 reserved s) (step : Session.Step pml4 s t) :
    SessionInv pml4 reserved t := by
  cases step with
  | map virt phys flags served => exact inv.map served phys flags
  | unmap virt => exact inv.unmap virt

theorem refines (inv : SessionInv pml4 reserved s) : Refines pml4 s := by
  constructor
  case lookup_eq => exact inv.lookup_eq
  case map_other =>
    intro virt phys flags served v different
    rw [(inv.map served phys flags).lookup_eq v, inv.lookup_eq v]
    exact lookup_update_of_ne _ _ different
  case unmap_other =>
    intro virt v different
    rw [(inv.unmap virt).lookup_eq v, inv.lookup_eq v]
    exact lookup_update_of_ne _ _ different

end SessionInv

/-- An empty top-level table has no tables below it. -/
theorem tableAt_of_empty {mem : Mem} (zero : ∀ index, index < 512 → entry mem pml4 index = 0)
    {path : List Nat} {table : Nat} (found : tableAt mem pml4 path = some table) :
    path = [] ∧ table = pml4 := by
  induction path using List.reverseRecOn generalizing table with
  | nil => exact ⟨rfl, (Option.some.inj found).symm⟩
  | append_singleton path index inductionHypothesis =>
      rcases tableAt_concat.mp found with ⟨last, reached, bound, next⟩
      rcases inductionHypothesis reached with ⟨rfl, rfl⟩
      rw [zero index bound, nextTable_absent (by decide)] at next
      cases next

theorem empty_inv {start : PhysState} (space : FrameSpace start 0 reserved)
    (totalLe : start.pmm.totalFrames * pageSize ≤ 2 ^ 52) (isTable : IsTable start pml4)
    (zero : ∀ index, index < 512 → entry start.mem pml4 index = 0) :
    SessionInv pml4 reserved ⟨start, fun _ => none⟩ := by
  have noLeaf : ∀ p j e, ¬ Leaf start.mem pml4 p j e := by
    rintro p j e ⟨table, found, bound, rfl, present, _⟩
    rcases tableAt_of_empty zero found with ⟨_, rfl⟩
    rw [zero j bound] at present
    exact present rfl
  constructor
  case tree =>
    refine ⟨space, totalLe, ?_, ?_⟩
    · intro p q table reachedP reachedQ
      rw [(tableAt_of_empty zero reachedP).1, (tableAt_of_empty zero reachedQ).1]
    · intro path table found
      rw [(tableAt_of_empty zero found).2]
      exact isTable
  case deep => exact fun p j e leaf => absurd leaf (noLeaf p j e)
  case aligned => exact fun _ _ impossible => by cases impossible
  case translated =>
    intro v
    apply Option.ext
    intro phys
    rw [hwTranslate_eq_some_iff]
    simp [noLeaf]

/-- In every run from an empty address space, `vmm_virt_to_phys` implements the
map that the same updates make. -/
theorem reachable_refines {start : PhysState} (space : FrameSpace start 0 reserved)
    (totalLe : start.pmm.totalFrames * pageSize ≤ 2 ^ 52) (isTable : IsTable start pml4)
    (zero : ∀ index, index < 512 → entry start.mem pml4 index = 0)
    (reachable : Session.Reachable pml4 start s) : Refines pml4 s := by
  have inv : SessionInv pml4 reserved s := by
    induction reachable with
    | refl => exact empty_inv space totalLe isTable zero
    | tail _ step inductionHypothesis => exact inductionHypothesis.step step
  exact inv.refines

end Runs

/-- A frame that `pmm_alloc_frame` hands out can serve as an empty top-level table, if it is
clear. -/
theorem allocated_inv {s : PhysState} {reserved : Set Nat} (space : FrameSpace s 0 reserved)
    (totalLe : s.pmm.totalFrames * pageSize ≤ 2 ^ 52) (served : (pmmAllocFrame s).1 ≠ 0)
    (zero : ∀ index, index < 512 → entry (pmmAllocFrame s).2.mem (pmmAllocFrame s).1 index = 0) :
    IsTable (pmmAllocFrame s).2 (pmmAllocFrame s).1 ∧
      SessionInv (pmmAllocFrame s).1 reserved ⟨(pmmAllocFrame s).2, fun _ => none⟩ := by
  rcases space.allocFrame with ⟨failed, _⟩ | ⟨frame, _, _, _, _, address, takes⟩
  · exact absurd (congrArg Prod.fst failed) served
  · have isTable : IsTable (pmmAllocFrame s).2 (pmmAllocFrame s).1 := by
      rw [address]
      exact isTable_of_takes space takes
    refine ⟨isTable, empty_inv (space.takes takes) ?_ isTable zero⟩
    rw [takes.total_eq]
    exact totalLe

/-- A machine of eight frames on which frame 2 has been taken for a top-level table. -/
def smallMachine : PhysState :=
  (pmmAllocFrame (kernelMainPmm 32768 4000 ⟨fun _ => 0, ⟨0, 0, 0, 0⟩⟩)).2

theorem smallMachine_zero (index : Nat) (bound : index < 512) :
    entry smallMachine.mem 8192 index = 0 := by
  have zero : ∀ index, index < 512 → entry smallMachine.mem 8192 index = 0 := by
    decide +kernel
  exact zero index bound

theorem smallMachine_total : smallMachine.pmm.totalFrames * pageSize ≤ 2 ^ 52 := by
  decide +kernel

theorem smallMachine_inv :
    IsTable smallMachine 8192 ∧
      SessionInv 8192 {frame | frame < reservedFrames (ramSize 32768) 4000}
        ⟨smallMachine, fun _ => none⟩ := by
  have address :
      (pmmAllocFrame (kernelMainPmm 32768 4000 ⟨fun _ => 0, ⟨0, 0, 0, 0⟩⟩)).1 = 8192 := by
    decide +kernel
  have boot : FrameSpace (kernelMainPmm 32768 4000 ⟨fun _ => 0, ⟨0, 0, 0, 0⟩⟩) 0
      {frame | frame < reservedFrames (ramSize 32768) 4000} :=
    frameSpace_setupPmm _ (by decide) (by decide) (imageFits_of_le (by decide) (by decide))
  have inv := allocated_inv boot (by decide +kernel) (by rw [address]; decide)
    (by rw [address]; exact smallMachine_zero)
  rw [address] at inv
  exact inv

theorem smallMachine_served : MapServed 8192 0x400000 smallMachine :=
  (smallMachine_inv.2.tree.mapServed_iff (smallMachine_inv.2.noLargeLeaf 0x400000)).mpr
    (by decide +kernel)

/-- On it a page is mapped, which creates three tables. -/
theorem reachable_refines_small :
    let s := Session.map ⟨smallMachine, fun _ => none⟩ 8192 0x400000 0x5000 2
    Refines 8192 s ∧ vmmVirtToPhys s.phys.mem 8192 0x400123 = 0x5123 := by
  rcases smallMachine_inv with ⟨isTable, inv⟩
  have refined := reachable_refines inv.tree.space smallMachine_total isTable smallMachine_zero
    (Relation.ReflTransGen.single (Session.Step.map 0x400000 0x5000 2 smallMachine_served))
  refine ⟨refined, ?_⟩
  rw [refined.lookup_eq]
  rfl

end Paging
end AuraKernel
