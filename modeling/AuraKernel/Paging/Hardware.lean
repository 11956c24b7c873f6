import AuraKernel.Machine.RadixTree
import AuraKernel.Paging.Vmm

namespace AuraKernel
namespace Paging

open Machine

/-!
# The hardware page walk

The processor walks the same tables as the software, but a present entry of a
page-directory-pointer table or of a page directory whose page-size bit is set
is a leaf that maps 1 GiB or 2 MiB.  `tableChild` presents the tables of an
address space as a radix tree, and `Leaf` the translations at its ends; the
hardware translation depends on the leaves only.  That a walk sets accessed and
dirty bits, which no walk looks at, is left to a module of its own.
-/

/-- Bit 7 of a directory entry: the entry maps a large page. -/
def ptePageSize : Nat := 0x80

/-- The address field of a 2 MiB leaf. -/
def largeAddrMask : Nat := 0x000FFFFFFFE00000

/-- The address field of a 1 GiB leaf. -/
def hugeAddrMask : Nat := 0x000FFFFFC0000000

/-- The present bit of an entry is set. -/
def IsPresent (e : Nat) : Prop := e &&& ptePresent ≠ 0

/-- The page-size bit of an entry is set. -/
def IsLarge (e : Nat) : Prop := e &&& ptePageSize ≠ 0

instance (e : Nat) : Decidable (IsPresent e) := inferInstanceAs (Decidable (_ ≠ _))

instance (e : Nat) : Decidable (IsLarge e) := inferInstanceAs (Decidable (_ ≠ _))

/-- The page walk of the processor: the physical address of a virtual one. -/
def hwTranslate (mem : Mem) (pml4 virt : Nat) : Option Nat :=
  let pml4e := entry mem pml4 (pml4Index virt)
  if ¬ IsPresent pml4e then none
  else
    let pdpte := entry mem (pml4e &&& pteAddrMask) (pdptIndex virt)
    if ¬ IsPresent pdpte then none
    else if IsLarge pdpte then some ((pdpte &&& hugeAddrMask) + virt % 2 ^ 30)
    else
      let pde := entry mem (pdpte &&& pteAddrMask) (pdIndex virt)
      if ¬ IsPresent pde then none
      else if IsLarge pde then some ((pde &&& largeAddrMask) + virt % 2 ^ 21)
      else
        let pte := entry mem (pde &&& pteAddrMask) (ptIndex virt)
        if ¬ IsPresent pte then none
        else some ((pte &&& pteAddrMask) + virt % 2 ^ 12)

/-! ## Bits of an entry -/

theorem isPresent_iff (e : Nat) : IsPresent e ↔ e % 2 = 1 := by
  unfold IsPresent
  rw [Ne, and_one_eq_zero_iff]
  omega

theorem isPresent_pageEntry (phys flags : Nat) : IsPresent (pageEntry phys flags) :=
  (isPresent_iff _).mpr (pageEntry_present phys flags)

theorem isLarge_iff (e : Nat) : IsLarge e ↔ e.testBit 7 = true := by
  unfold IsLarge
  rw [show ptePageSize = 2 ^ 7 from rfl, Nat.and_two_pow]
  cases e.testBit 7 <;> simp

/-- Entries are large or not by their low byte. -/
theorem isLarge_iff_mod (e : Nat) : IsLarge e ↔ 128 ≤ e % 256 := by
  rw [isLarge_iff, Nat.testBit_eq_decide_div_mod_eq, decide_eq_true_iff]
  omega

theorem not_isLarge_link {table flags : Nat} (aligned : table % 2 ^ 12 = 0) (small : flags < 128) :
    ¬ IsLarge (table + flags) := by
  rw [isLarge_iff_mod]
  omega

theorem link_and_addrMask {table flags : Nat} (aligned : table % 2 ^ 12 = 0)
    (low : table < 2 ^ 52) (small : flags < 2 ^ 12) : (table + flags) &&& pteAddrMask = table := by
  rw [and_addrMask]
  omega

/-! ## The tree -/

/-- The table behind an entry of a table of some depth, if the entry points to one. -/
def nextTable (depth e : Nat) : Option Nat :=
  if depth < 3 ∧ IsPresent e ∧ (depth = 0 ∨ ¬ IsLarge e) then some (e &&& pteAddrMask) else none

/-- The tables of an address space as a radix tree. -/
def tableChild (mem : Mem) : ChildOf := fun depth table index =>
  if index < 512 then nextTable depth (entry mem table index) else none

/-- The table at the end of a path of indices. -/
def tableAt (mem : Mem) (root : Nat) (path : List Nat) : Option Nat :=
  descend (tableChild mem) 0 root path

/-- A present entry behind a path that does not point to a table. -/
def Leaf (mem : Mem) (root : Nat) (path : List Nat) (index e : Nat) : Prop :=
  ∃ table, tableAt mem root path = some table ∧ index < 512 ∧ entry mem table index = e ∧
    IsPresent e ∧ nextTable path.length e = none

section Tree

variable {mem mem' : Mem} {root : Nat}

theorem nextTable_eq_some_iff {depth e table : Nat} :
    nextTable depth e = some table ↔
      (depth < 3 ∧ IsPresent e ∧ (depth = 0 ∨ ¬ IsLarge e)) ∧ (e &&& pteAddrMask) = table := by
  unfold nextTable
  by_cases pointer : depth < 3 ∧ IsPresent e ∧ (depth = 0 ∨ ¬ IsLarge e)
  · rw [if_pos pointer, Option.some.injEq]
    exact (and_iff_right pointer).symm
  · rw [if_neg pointer]
    exact iff_of_false (by simp) fun both => pointer both.1

theorem nextTable_absent {depth e : Nat} (absent : ¬ IsPresent e) : nextTable depth e = none :=
  if_neg fun both => absent both.2.1

theorem tableChild_eq_some_iff {depth table index next : Nat} :
    tableChild mem depth table index = some next ↔
      index < 512 ∧ nextTable depth (entry mem table index) = some next := by
  unfold tableChild
  by_cases bound : index < 512
  · rw [if_pos bound, and_iff_right bound]
  · rw [if_neg bound]
    exact iff_of_false (by simp) fun both => bound both.1

theorem tableAt_concat_eq (path : List Nat) (index : Nat) :
    tableAt mem root (path ++ [index]) =
      (tableAt mem root path).bind fun last => tableChild mem path.length last index := by
  unfold tableAt
  rw [descend_concat, Nat.zero_add]

theorem tableAt_concat {path : List Nat} {index next : Nat} :
    tableAt mem root (path ++ [index]) = some next ↔
      ∃ table, tableAt mem root path = some table ∧ index < 512 ∧
        nextTable path.length (entry mem table index) = some next := by
  unfold tableAt
  rw [descend_concat_eq_some]
  simp only [tableChild_eq_some_iff]

/-- The hardware translation ends at a leaf of 1 GiB, 2 MiB or 4 KiB. -/
theorem hwTranslate_eq_some_iff {virt phys : Nat} :
    hwTranslate mem root virt = some phys ↔
      (∃ e, Leaf mem root [pml4Index virt] (pdptIndex virt) e ∧
        (e &&& hugeAddrMask) + virt % 2 ^ 30 = phys) ∨
      (∃ e, Leaf mem root [pml4Index virt, pdptIndex virt] (pdIndex virt) e ∧
        (e &&& largeAddrMask) + virt % 2 ^ 21 = phys) ∨
      (∃ e, Leaf mem root (pagePath virt) (ptIndex virt) e ∧
        (e &&& pteAddrMask) + virt % 2 ^ 12 = phys) := by
  have bound4 := pml4Index_lt virt
  have bound3 := pdptIndex_lt virt
  have bound2 := pdIndex_lt virt
  have bound1 := ptIndex_lt virt
  unfold hwTranslate Leaf tableAt pagePath
  simp only [descend_cons, descend_nil, tableChild, bound4, bound3, bound2, bound1, if_true,
    nextTable, List.length_cons, List.length_nil]
  generalize entry mem root (pml4Index virt) = pml4e
  by_cases present4 : IsPresent pml4e
  · simp [present4]
    generalize entry mem (pml4e &&& pteAddrMask) (pdptIndex virt) = pdpte
    by_cases present3 : IsPresent pdpte
    · by_cases large3 : IsLarge pdpte
      · simp [present3, large3]
      · simp [present3, large3]
        generalize entry mem (pdpte &&& pteAddrMask) (pdIndex virt) = pde
        by_cases present2 : IsPresent pde
        · by_cases large2 : IsLarge pde
          · simp [present2, large2]
          · simp [present2, large2]
        · simp [present2]
    · simp [present3]
  · simp [present4]

end Tree

end Paging
end AuraKernel
