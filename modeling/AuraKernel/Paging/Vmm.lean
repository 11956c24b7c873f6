import AuraKernel.Physical.FrameSpace

namespace AuraKernel
namespace Paging

open Machine
open Physical

/-!
# The virtual memory manager

`kernel/arch/x86_64/vmm.c` walks a four-level page table through the identity
map: a table is an address, an entry a 64-bit word behind it.  The three levels
that `vmm_map_page` creates on demand are filled by the same statements, which
are `ensureTable` here.  `invlpg` has no effect on memory and is left out.
-/

def ptePresent : Nat := 1

def pteWritable : Nat := 2

def pteUser : Nat := 4

def pteAddrMask : Nat := 0x000FFFFFFFFFF000

def pml4Index (virt : Nat) : Nat := (virt >>> 39) &&& 0x1FF

def pdptIndex (virt : Nat) : Nat := (virt >>> 30) &&& 0x1FF

def pdIndex (virt : Nat) : Nat := (virt >>> 21) &&& 0x1FF

def ptIndex (virt : Nat) : Nat := (virt >>> 12) &&& 0x1FF

def entry (mem : Mem) (table index : Nat) : Nat := mem.load64 (table + 8 * index)

def setEntry (table index value : Nat) (mem : Mem) : Mem := mem.store64 (table + 8 * index) value

/-- `for (i = 0; i < count; i++) table[i] = 0` -/
def clearTable (table : Nat) : Nat → Mem → Mem
  | 0, mem => mem
  | count + 1, mem => setEntry table count 0 (clearTable table count mem)

/-- The table behind an entry, which is created if the entry is not present. -/
def ensureTable (table index : Nat) (s : PhysState) : Nat × PhysState :=
  if entry s.mem table index &&& ptePresent = 0 then
    let (next, s) := pmmAllocFrame s
    let mem := clearTable next 512 s.mem
    (next, { s with
      mem := setEntry table index (next ||| ptePresent ||| pteWritable ||| pteUser) mem })
  else (entry s.mem table index &&& pteAddrMask, s)

/-- The entry that `vmm_map_page` writes for a page. -/
def pageEntry (phys flags : Nat) : Nat :=
  (phys &&& pteAddrMask) ||| (flags &&& not64 pteAddrMask) ||| ptePresent

def vmmMapPage (pml4 virt phys flags : Nat) (s : PhysState) : PhysState :=
  let (pdpt, s) := ensureTable pml4 (pml4Index virt) s
  let (pd, s) := ensureTable pdpt (pdptIndex virt) s
  let (pt, s) := ensureTable pd (pdIndex virt) s
  { s with mem := setEntry pt (ptIndex virt) (pageEntry phys flags) s.mem }

def vmmUnmapPage (pml4 virt : Nat) (mem : Mem) : Mem :=
  if entry mem pml4 (pml4Index virt) &&& ptePresent = 0 then mem
  else
    let pdpt := entry mem pml4 (pml4Index virt) &&& pteAddrMask
    if entry mem pdpt (pdptIndex virt) &&& ptePresent = 0 then mem
    else
      let pd := entry mem pdpt (pdptIndex virt) &&& pteAddrMask
      if entry mem pd (pdIndex virt) &&& ptePresent = 0 then mem
      else
        let pt := entry mem pd (pdIndex virt) &&& pteAddrMask
        if entry mem pt (ptIndex virt) &&& ptePresent = 0 then mem
        else setEntry pt (ptIndex virt) 0 mem

def vmmVirtToPhys (mem : Mem) (pml4 virt : Nat) : Nat :=
  if entry mem pml4 (pml4Index virt) &&& ptePresent = 0 then 0
  else
    let pdpt := entry mem pml4 (pml4Index virt) &&& pteAddrMask
    if entry mem pdpt (pdptIndex virt) &&& ptePresent = 0 then 0
    else
      let pd := entry mem pdpt (pdptIndex virt) &&& pteAddrMask
      if entry mem pd (pdIndex virt) &&& ptePresent = 0 then 0
      else
        let pt := entry mem pd (pdIndex virt) &&& pteAddrMask
        if entry mem pt (ptIndex virt) &&& ptePresent = 0 then 0
        else (entry mem pt (ptIndex virt) &&& pteAddrMask) ||| (virt &&& 0xFFF)

/-! ## Indices -/

/-- Bits 47 to 12 of an address, which select its page. -/
def pageKey (virt : Nat) : Nat := virt / 2 ^ 12 % 2 ^ 36

/-- The indices of the directories above a page. -/
def pagePath (virt : Nat) : List Nat := [pml4Index virt, pdptIndex virt, pdIndex virt]

theorem and_511 (value : Nat) : value &&& 0x1FF = value % 512 :=
  Nat.and_two_pow_sub_one_eq_mod value 9

theorem pml4Index_eq (virt : Nat) : pml4Index virt = virt / 2 ^ 39 % 512 := by
  rw [pml4Index, and_511, Nat.shiftRight_eq_div_pow]

theorem pdptIndex_eq (virt : Nat) : pdptIndex virt = virt / 2 ^ 30 % 512 := by
  rw [pdptIndex, and_511, Nat.shiftRight_eq_div_pow]

theorem pdIndex_eq (virt : Nat) : pdIndex virt = virt / 2 ^ 21 % 512 := by
  rw [pdIndex, and_511, Nat.shiftRight_eq_div_pow]

theorem ptIndex_eq (virt : Nat) : ptIndex virt = virt / 2 ^ 12 % 512 := by
  rw [ptIndex, and_511, Nat.shiftRight_eq_div_pow]

theorem pml4Index_lt (virt : Nat) : pml4Index virt < 512 := by
  rw [pml4Index_eq]
  exact Nat.mod_lt _ (by decide)

theorem pdptIndex_lt (virt : Nat) : pdptIndex virt < 512 := by
  rw [pdptIndex_eq]
  exact Nat.mod_lt _ (by decide)

theorem pdIndex_lt (virt : Nat) : pdIndex virt < 512 := by
  rw [pdIndex_eq]
  exact Nat.mod_lt _ (by decide)

theorem ptIndex_lt (virt : Nat) : ptIndex virt < 512 := by
  rw [ptIndex_eq]
  exact Nat.mod_lt _ (by decide)

/-- A page is selected by its four indices. -/
theorem pageKey_eq_iff (virt other : Nat) :
    pageKey virt = pageKey other ↔
      pagePath virt = pagePath other ∧ ptIndex virt = ptIndex other := by
  unfold pagePath pageKey
  simp only [List.cons.injEq, and_true, pml4Index_eq, pdptIndex_eq, pdIndex_eq, ptIndex_eq]
  omega

/-! ## Entries -/

theorem and_one_eq_zero_iff (value : Nat) : value &&& ptePresent = 0 ↔ value % 2 = 0 := by
  unfold ptePresent
  rw [Nat.and_one_is_mod]

theorem and_addrMask (value : Nat) : value &&& pteAddrMask = value % 2 ^ 52 / 2 ^ 12 * 2 ^ 12 := by
  rw [show pteAddrMask = 2 ^ 52 - 2 ^ 12 from rfl, and_highMask (by decide)]

theorem tableEntry_eq {next : Nat} (aligned : next % 2 ^ 12 = 0) :
    next ||| ptePresent ||| pteWritable ||| pteUser = next + 7 := by
  rw [Nat.or_assoc, Nat.or_assoc, show ptePresent ||| (pteWritable ||| pteUser) = 7 from rfl]
  exact or_of_aligned aligned (by decide)

theorem testBit_addrMask (index : Nat) :
    pteAddrMask.testBit index = (decide (12 ≤ index) && decide (index < 52)) := by
  rw [show pteAddrMask = 2 ^ 52 - 2 ^ 12 from rfl, testBit_highMask (by decide)]

theorem testBit_ptePresent (index : Nat) : ptePresent.testBit index = decide (index = 0) := by
  rw [show ptePresent = 2 ^ 0 from rfl, Nat.testBit_two_pow]
  exact decide_eq_decide.mpr eq_comm

/-- The address field of a page's entry is the address field of the frame. -/
theorem pageEntry_and_addrMask (phys flags : Nat) :
    pageEntry phys flags &&& pteAddrMask = phys &&& pteAddrMask := by
  apply Nat.eq_of_testBit_eq
  intro index
  unfold pageEntry
  simp only [Nat.testBit_and, Nat.testBit_or, testBit_addrMask, testBit_ptePresent]
  by_cases field : 12 ≤ index ∧ index < 52
  · have flag : (not64 pteAddrMask).testBit index = false := by
      rw [testBit_not64 (by omega), testBit_addrMask]
      simp [field]
    simp [field, flag, show index ≠ 0 by omega]
  · have outside : (decide (12 ≤ index) && decide (index < 52)) = false := by
      simp only [Bool.and_eq_false_iff, decide_eq_false_iff_not]
      omega
    simp [outside]

theorem pageEntry_present (phys flags : Nat) : pageEntry phys flags % 2 = 1 := by
  have bit : (pageEntry phys flags).testBit 0 = true := by
    unfold pageEntry
    simp only [Nat.testBit_or, testBit_ptePresent, decide_true, Bool.or_true]
  rw [Nat.testBit_zero] at bit
  exact of_decide_eq_true bit

theorem pageEntry_lt (phys flags : Nat) : pageEntry phys flags < 2 ^ 64 := by
  have mask : pteAddrMask < 2 ^ 64 := by decide
  have notMask : not64 pteAddrMask < 2 ^ 64 := by decide
  unfold pageEntry
  refine Nat.or_lt_two_pow (Nat.or_lt_two_pow ?_ ?_) (by decide)
  · exact Nat.lt_of_le_of_lt Nat.and_le_right mask
  · exact Nat.lt_of_le_of_lt Nat.and_le_right notMask

/-! ## Stores to tables -/

@[simp] theorem entry_setEntry_same (mem : Mem) (table index value : Nat) :
    entry (setEntry table index value mem) table index = wrap64 value :=
  mem.load64_store64_same _ _

theorem entry_setEntry_disjoint {mem : Mem} {table index value other otherIndex : Nat}
    (apart : other + 8 * otherIndex + 8 ≤ table + 8 * index ∨
      table + 8 * index + 8 ≤ other + 8 * otherIndex) :
    entry (setEntry table index value mem) other otherIndex = entry mem other otherIndex :=
  Mem.load64_store64_disjoint apart

theorem setEntry_apply_of_outside {mem : Mem} {table index value place : Nat}
    (outside : place < table + 8 * index ∨ table + 8 * index + 8 ≤ place) :
    setEntry table index value mem place = mem place :=
  Mem.store64_apply_of_outside outside

theorem clearTable_apply_of_outside {mem : Mem} {table count place : Nat}
    (outside : place < table ∨ table + 8 * count ≤ place) :
    clearTable table count mem place = mem place := by
  induction count with
  | zero => rfl
  | succ count inductionHypothesis =>
      rw [clearTable, setEntry_apply_of_outside (by omega), inductionHypothesis (by omega)]

theorem entry_clearTable {mem : Mem} {table count index : Nat} (bound : index < count) :
    entry (clearTable table count mem) table index = 0 := by
  induction count with
  | zero => omega
  | succ count inductionHypothesis =>
      rw [clearTable]
      by_cases last : index = count
      · rw [last, entry_setEntry_same]
        exact wrap64_of_lt (by decide)
      · rw [entry_setEntry_disjoint (by omega), inductionHypothesis (by omega)]

theorem entry_congr {first second : Mem} {table index : Nat} (bound : index < 512)
    (agree : ∀ place, table ≤ place → place < table + pageSize → first place = second place) :
    entry first table index = entry second table index := by
  unfold pageSize at agree
  exact Mem.load64_congr fun place low high => agree place (by omega) (by omega)

end Paging
end AuraKernel
