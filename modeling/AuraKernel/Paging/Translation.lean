import AuraKernel.Paging.BootTables

namespace AuraKernel
namespace Paging

open Machine

/-!
# Software translation against the hardware walk

`vmm_virt_to_phys` follows every present entry down to the last level.  Below a
leaf of 2 MiB or 1 GiB there is no table: it reads the first words of the large
page as entries.  The two walks agree where no large leaf is met, and otherwise
only if these words happen to spell the translation out.
-/

/-- `vmm_virt_to_phys` computes the hardware translation, and 0 exactly where
there is none or it is 0. -/
def TranslationAgrees (mem : Mem) (pml4 virt : Nat) : Prop :=
  (∀ phys, hwTranslate mem pml4 virt = some phys → vmmVirtToPhys mem pml4 virt = phys) ∧
  (vmmVirtToPhys mem pml4 virt = 0 ↔
    hwTranslate mem pml4 virt = none ∨ hwTranslate mem pml4 virt = some 0)

/-- The word of the 2 MiB page of `pde` that is taken for the entry of `virt`
is that entry by chance, or is not present and `virt` is mapped to 0. -/
def LargeByChance (mem : Mem) (virt pde : Nat) : Prop :=
  let pte := entry mem (pde &&& pteAddrMask) (ptIndex virt)
  if IsPresent pte then
    (pte &&& pteAddrMask) = (pde &&& largeAddrMask) + ptIndex virt * 2 ^ 12
  else (pde &&& largeAddrMask) + virt % 2 ^ 21 = 0

/-- The same for the 1 GiB page of `pdpte`, where two words are misread. -/
def HugeByChance (mem : Mem) (virt pdpte : Nat) : Prop :=
  let pde := entry mem (pdpte &&& pteAddrMask) (pdIndex virt)
  let pte := entry mem (pde &&& pteAddrMask) (ptIndex virt)
  if IsPresent pde ∧ IsPresent pte then
    (pte &&& pteAddrMask) =
      (pdpte &&& hugeAddrMask) + pdIndex virt * 2 ^ 21 + ptIndex virt * 2 ^ 12
  else (pdpte &&& hugeAddrMask) + virt % 2 ^ 30 = 0

/-- The walk of `virt` meets no large leaf, or only one that is harmless by chance. -/
def LargeLeavesHarmless (mem : Mem) (pml4 virt : Nat) : Prop :=
  (∀ pdpte, Leaf mem pml4 [pml4Index virt] (pdptIndex virt) pdpte → HugeByChance mem virt pdpte) ∧
  ∀ pde, Leaf mem pml4 [pml4Index virt, pdptIndex virt] (pdIndex virt) pde →
    LargeByChance mem virt pde

section Agreement

variable {mem : Mem} {pml4 virt : Nat}

theorem translationAgrees_iff_getD :
    TranslationAgrees mem pml4 virt ↔
      vmmVirtToPhys mem pml4 virt = (hwTranslate mem pml4 virt).getD 0 := by
  unfold TranslationAgrees
  cases hwTranslate mem pml4 virt with
  | none => simp
  | some phys =>
      simp only [Option.some.injEq, Option.getD_some, reduceCtorEq, false_or]
      constructor
      · exact fun agrees => agrees.1 phys rfl
      · rintro same
        exact ⟨fun _ other => other ▸ same, by rw [same]⟩

/-- The page offset is or-ed into an aligned address. -/
theorem addr_or_offset (value : Nat) :
    (value &&& pteAddrMask) ||| (virt &&& 0xFFF) = (value &&& pteAddrMask) + virt % 2 ^ 12 := by
  rw [show virt &&& 0xFFF = virt % 2 ^ 12 from Nat.and_two_pow_sub_one_eq_mod virt 12]
  refine @or_of_aligned 12 _ _ ?_ (Nat.mod_lt _ (by decide))
  rw [and_addrMask]
  exact Nat.mul_mod_left _ _

/-- What the software reads behind the page directory. -/
def walkTable (mem : Mem) (pt virt : Nat) : Nat :=
  if entry mem pt (ptIndex virt) &&& ptePresent = 0 then 0
  else (entry mem pt (ptIndex virt) &&& pteAddrMask) + virt % 2 ^ 12

/-- What the software reads behind the page-directory-pointer table. -/
def walkDirectory (mem : Mem) (pd virt : Nat) : Nat :=
  if entry mem pd (pdIndex virt) &&& ptePresent = 0 then 0
  else walkTable mem (entry mem pd (pdIndex virt) &&& pteAddrMask) virt

theorem vmmVirtToPhys_eq (mem : Mem) (pml4 virt : Nat) :
    vmmVirtToPhys mem pml4 virt =
      if entry mem pml4 (pml4Index virt) &&& ptePresent = 0 then 0
      else if entry mem (entry mem pml4 (pml4Index virt) &&& pteAddrMask)
          (pdptIndex virt) &&& ptePresent = 0 then 0
      else walkDirectory mem (entry mem (entry mem pml4 (pml4Index virt) &&& pteAddrMask)
        (pdptIndex virt) &&& pteAddrMask) virt := by
  unfold vmmVirtToPhys walkDirectory walkTable
  simp only [addr_or_offset]

theorem walkTable_eq_iff (pde : Nat) :
    walkTable mem (pde &&& pteAddrMask) virt = (pde &&& largeAddrMask) + virt % 2 ^ 21 ↔
      LargeByChance mem virt pde := by
  have index := ptIndex_eq virt
  unfold walkTable LargeByChance
  dsimp only
  by_cases present : IsPresent (entry mem (pde &&& pteAddrMask) (ptIndex virt))
  · rw [if_neg present, if_pos present]
    omega
  · rw [if_pos (not_not.mp present), if_neg present]
    exact eq_comm

theorem walkDirectory_eq_iff (pdpte : Nat) :
    walkDirectory mem (pdpte &&& pteAddrMask) virt = (pdpte &&& hugeAddrMask) + virt % 2 ^ 30 ↔
      HugeByChance mem virt pdpte := by
  have index := ptIndex_eq virt
  have index' := pdIndex_eq virt
  unfold walkDirectory walkTable HugeByChance
  dsimp only
  by_cases present : IsPresent (entry mem (pdpte &&& pteAddrMask) (pdIndex virt))
  · by_cases present' : IsPresent (entry mem
        (entry mem (pdpte &&& pteAddrMask) (pdIndex virt) &&& pteAddrMask) (ptIndex virt))
    · rw [if_neg present, if_neg present', if_pos ⟨present, present'⟩]
      omega
    · rw [if_neg present, if_pos (not_not.mp present'), if_neg fun both => present' both.2]
      exact eq_comm
  · rw [if_pos (not_not.mp present), if_neg fun both => present both.1]
    exact eq_comm

/-- The translation is right exactly if the walk meets no large leaf, or meets
one whose first words happen to spell it out. -/
theorem translationAgrees_iff (mem : Mem) (pml4 virt : Nat) :
    TranslationAgrees mem pml4 virt ↔ LargeLeavesHarmless mem pml4 virt := by
  have bound4 := pml4Index_lt virt
  have bound3 := pdptIndex_lt virt
  have bound2 := pdIndex_lt virt
  rw [translationAgrees_iff_getD, vmmVirtToPhys_eq]
  unfold hwTranslate LargeLeavesHarmless Leaf tableAt
  simp only [descend_cons, descend_nil, tableChild, bound4, bound3, bound2, if_true, nextTable,
    List.length_cons, List.length_nil]
  generalize entry mem pml4 (pml4Index virt) = pml4e
  by_cases present4 : IsPresent pml4e
  · have notAbsent4 : ¬ pml4e &&& ptePresent = 0 := present4
    simp [present4, notAbsent4]
    generalize entry mem (pml4e &&& pteAddrMask) (pdptIndex virt) = pdpte
    by_cases present3 : IsPresent pdpte
    · have notAbsent3 : ¬ pdpte &&& ptePresent = 0 := present3
      by_cases large3 : IsLarge pdpte
      · simp [present3, notAbsent3, large3]
        exact walkDirectory_eq_iff pdpte
      · simp [present3, notAbsent3, large3, walkDirectory]
        generalize entry mem (pdpte &&& pteAddrMask) (pdIndex virt) = pde
        by_cases present2 : IsPresent pde
        · have notAbsent2 : ¬ pde &&& ptePresent = 0 := present2
          by_cases large2 : IsLarge pde
          · simp [present2, notAbsent2, large2]
            exact walkTable_eq_iff pde
          · simp [present2, notAbsent2, large2, walkTable]
            by_cases present1 : IsPresent (entry mem (pde &&& pteAddrMask) (ptIndex virt))
            · rw [if_neg present1, if_pos present1]
              rfl
            · rw [if_pos (not_not.mp present1), if_neg present1]
              rfl
        · have absent2 : pde &&& ptePresent = 0 := not_not.mp present2
          simp [present2, absent2]
    · have absent3 : pdpte &&& ptePresent = 0 := not_not.mp present3
      simp [present3, absent3]
  · have absent4 : pml4e &&& ptePresent = 0 := not_not.mp present4
    simp [present4, absent4]

end Agreement

/-- In the identity map of the boot tables, the address 2 MiB is reported as not
mapped: the walk reads the first word of the large page there, which is 0. -/
theorem not_translationAgrees_boot :
    ¬ TranslationAgrees (bootTables 0x110000 fun _ => 0) 0x110000 0x200000 ∧
      hwTranslate (bootTables 0x110000 fun _ => 0) 0x110000 0x200000 = some 0x200000 ∧
      vmmVirtToPhys (bootTables 0x110000 fun _ => 0) 0x110000 0x200000 = 0 := by
  have hardware : hwTranslate (bootTables 0x110000 fun _ => 0) 0x110000 0x200000 =
      some 0x200000 := hwTranslate_boot (by decide) (by decide) 0x200000
  have word : entry (bootTables 0x110000 fun _ => 0) 0x200000 0 = 0 :=
    Mem.load_of_zero fun place low high => bootTables_apply_of_outside (by omega)
  have software : vmmVirtToPhys (bootTables 0x110000 fun _ => 0) 0x110000 0x200000 = 0 := by
    rw [vmmVirtToPhys_eq, show pml4Index 0x200000 = 0 from rfl,
      show pdptIndex 0x200000 = 0 from rfl,
      entry_bootPml4 (by decide) (by decide) (by decide), if_pos rfl,
      show (0x110000 + 4099) &&& pteAddrMask = 0x110000 + 4096 from rfl,
      entry_bootPdpt (by decide) (by decide) (by decide), if_pos rfl,
      show (0x110000 + 8195) &&& pteAddrMask = 0x110000 + 8192 from rfl]
    unfold walkDirectory walkTable
    rw [show pdIndex 0x200000 = 1 from rfl, show ptIndex 0x200000 = 0 from rfl,
      entry_bootPd (by decide),
      show (0x83 + 1 * 0x200000) &&& pteAddrMask = 0x200000 from rfl, word]
    rfl
  refine ⟨fun agrees => ?_, hardware, software⟩
  have wrong := agrees.1 _ hardware
  rw [software] at wrong
  cases wrong

end Paging
end AuraKernel
