import AuraKernel.Paging.Hardware

namespace AuraKernel
namespace Paging

open Machine

/-!
# The boot tables

`boot/entry64.S` builds the address space in which the kernel starts and which
`vmm_init` keeps: the first gigabyte, mapped to itself by 512 large pages.  The
three tables follow each other in `.bss`.
-/

/-- `.fill_pd`, over the first `count` entries: the low and the high half of
each are stored separately. -/
def fillPd (bootPd : Nat) : Nat → Mem → Mem
  | 0, mem => mem
  | count + 1, mem =>
      ((fillPd bootPd count mem).store32 (bootPd + 8 * count)
        (0x83 + count * 0x200000)).store32 (bootPd + 8 * count + 4) 0

/-- The tables that `_start` builds at `boot_pml4`, `boot_pdpt` and `boot_pd`. -/
def bootTables (bootPml4 : Nat) (mem : Mem) : Mem :=
  let bootPdpt := bootPml4 + 4096
  let bootPd := bootPml4 + 8192
  let mem := mem.fill bootPml4 0 12288
  let mem := mem.store32 bootPml4 (bootPdpt ||| 0x03)
  let mem := mem.store32 bootPdpt (bootPd ||| 0x03)
  fillPd bootPd 512 mem

section Entries

variable {mem : Mem} {bootPml4 : Nat}

theorem fillPd_apply_of_outside {bootPd count place : Nat}
    (outside : place < bootPd ∨ bootPd + 8 * count ≤ place) :
    fillPd bootPd count mem place = mem place := by
  induction count with
  | zero => rfl
  | succ count inductionHypothesis =>
      rw [fillPd, Mem.store32_apply_of_outside (by omega), Mem.store32_apply_of_outside (by omega),
        inductionHypothesis (by omega)]

theorem entry_fillPd {bootPd count index : Nat} (bound : index < count) (small : count ≤ 512) :
    entry (fillPd bootPd count mem) bootPd index = 0x83 + index * 0x200000 := by
  unfold entry
  induction count with
  | zero => omega
  | succ count inductionHypothesis =>
      rw [fillPd, Mem.load64_eq_load32]
      by_cases last : index = count
      · subst last
        rw [Mem.load32_store32_same, Mem.load32_store32_disjoint (by omega),
          Mem.load32_store32_same, wrap32_of_lt (by omega), wrap32_of_lt (by decide)]
        omega
      · rw [Mem.load32_store32_disjoint (by omega), Mem.load32_store32_disjoint (by omega),
          Mem.load32_store32_disjoint (by omega), Mem.load32_store32_disjoint (by omega),
          ← Mem.load64_eq_load32]
        exact inductionHypothesis (by omega) (by omega)

/-- Outside the three tables nothing changes. -/
theorem bootTables_apply_of_outside {place : Nat}
    (outside : place < bootPml4 ∨ bootPml4 + 12288 ≤ place) :
    bootTables bootPml4 mem place = mem place := by
  unfold bootTables
  rw [fillPd_apply_of_outside (by omega), Mem.store32_apply_of_outside (by omega),
    Mem.store32_apply_of_outside (by omega), Mem.fill_apply, if_neg (by omega)]

theorem or_three {table : Nat} (aligned : table % 2 ^ 12 = 0) : table ||| 0x03 = table + 3 :=
  or_of_aligned aligned (by decide)

/-- A zeroed table whose first entry is linked. -/
theorem entry_link {table value index : Nat}
    (zero : ∀ place, table ≤ place → place < table + 4096 → mem place = 0)
    (small : value < 2 ^ 32) (bound : index < 512) :
    entry (mem.store32 table value) table index = if index = 0 then value else 0 := by
  unfold entry
  rw [Mem.load64_eq_load32]
  by_cases first : index = 0
  · have high : mem.load32 (table + 4) = 0 :=
      Mem.load_of_zero fun place below above => zero place (by omega) (by omega)
    subst first
    simp only [Nat.mul_zero, Nat.add_zero, if_true]
    rw [Mem.load32_store32_same, Mem.load32_store32_disjoint (by omega), wrap32_of_lt small, high]
    omega
  · have lower : mem.load32 (table + 8 * index) = 0 :=
      Mem.load_of_zero fun place below above => zero place (by omega) (by omega)
    have upper : mem.load32 (table + 8 * index + 4) = 0 :=
      Mem.load_of_zero fun place below above => zero place (by omega) (by omega)
    rw [if_neg first, Mem.load32_store32_disjoint (by omega),
      Mem.load32_store32_disjoint (by omega), lower, upper]
    rfl

theorem entry_bootPml4 (aligned : bootPml4 % 2 ^ 12 = 0) (low : bootPml4 + 12288 ≤ 2 ^ 32)
    {index : Nat} (bound : index < 512) :
    entry (bootTables bootPml4 mem) bootPml4 index = if index = 0 then bootPml4 + 4099 else 0 := by
  have same : entry (bootTables bootPml4 mem) bootPml4 index =
      entry ((mem.fill bootPml4 0 12288).store32 bootPml4 (bootPml4 + 4099)) bootPml4 index := by
    refine Mem.load64_congr fun place below above => ?_
    unfold bootTables
    rw [fillPd_apply_of_outside (by omega), Mem.store32_apply_of_outside (by omega),
      or_three (by omega)]
  rw [same]
  refine entry_link (fun place below above => ?_) (by omega) bound
  rw [Mem.fill_apply, if_pos (by omega)]

theorem entry_bootPdpt (aligned : bootPml4 % 2 ^ 12 = 0) (low : bootPml4 + 12288 ≤ 2 ^ 32)
    {index : Nat} (bound : index < 512) :
    entry (bootTables bootPml4 mem) (bootPml4 + 4096) index =
      if index = 0 then bootPml4 + 8195 else 0 := by
  have same : entry (bootTables bootPml4 mem) (bootPml4 + 4096) index =
      entry (((mem.fill bootPml4 0 12288).store32 bootPml4 (bootPml4 + 4096 ||| 0x03)).store32
        (bootPml4 + 4096) (bootPml4 + 8195)) (bootPml4 + 4096) index := by
    refine Mem.load64_congr fun place below above => ?_
    unfold bootTables
    rw [fillPd_apply_of_outside (by omega), @or_three (bootPml4 + 8192) (by omega)]
  rw [same]
  refine entry_link (fun place below above => ?_) (by omega) bound
  rw [Mem.store32_apply_of_outside (by omega), Mem.fill_apply, if_pos (by omega)]

theorem entry_bootPd {index : Nat} (bound : index < 512) :
    entry (bootTables bootPml4 mem) (bootPml4 + 8192) index = 0x83 + index * 0x200000 :=
  entry_fillPd bound (Nat.le_refl _)

/-! ## The address space -/

/-- The address field of boot page `index`. -/
theorem bootPd_and_largeAddrMask {index : Nat} (bound : index < 512) :
    (0x83 + index * 0x200000) &&& largeAddrMask = index * 2 ^ 21 := by
  rw [show largeAddrMask = 2 ^ 52 - 2 ^ 21 from rfl, and_highMask (by decide)]
  omega

variable (aligned : bootPml4 % 2 ^ 12 = 0) (low : bootPml4 + 12288 ≤ 2 ^ 32)

include aligned low

/-- The hardware maps the first gigabyte to itself and nothing else. -/
theorem hwTranslate_boot (virt : Nat) :
    hwTranslate (bootTables bootPml4 mem) bootPml4 virt =
      if virt % 2 ^ 48 < 2 ^ 30 then some (virt % 2 ^ 48) else none := by
  unfold hwTranslate
  simp only [entry_bootPml4 aligned low (pml4Index_lt virt)]
  by_cases first : pml4Index virt = 0
  · have link4 : (bootPml4 + 4099) &&& pteAddrMask = bootPml4 + 4096 :=
      @link_and_addrMask (bootPml4 + 4096) 3 (by omega) (by omega) (by decide)
    have present4 : IsPresent (bootPml4 + 4099) := by
      rw [isPresent_iff]
      omega
    simp only [if_pos first, present4, not_true, if_false, link4,
      entry_bootPdpt aligned low (pdptIndex_lt virt)]
    by_cases second : pdptIndex virt = 0
    · have link3 : (bootPml4 + 8195) &&& pteAddrMask = bootPml4 + 8192 :=
        @link_and_addrMask (bootPml4 + 8192) 3 (by omega) (by omega) (by decide)
      have present3 : IsPresent (bootPml4 + 8195) := by
        rw [isPresent_iff]
        omega
      have pointer3 : ¬ IsLarge (bootPml4 + 8195) :=
        @not_isLarge_link (bootPml4 + 8192) 3 (by omega) (by decide)
      have present2 : IsPresent (0x83 + pdIndex virt * 0x200000) := by
        rw [isPresent_iff]
        omega
      have large2 : IsLarge (0x83 + pdIndex virt * 0x200000) := by
        rw [isLarge_iff_mod]
        omega
      simp only [if_pos second, present3, pointer3, not_true, if_false, link3,
        entry_bootPd (pdIndex_lt virt), present2, large2, if_true,
        bootPd_and_largeAddrMask (pdIndex_lt virt)]
      rw [pml4Index_eq] at first
      rw [pdptIndex_eq] at second
      rw [pdIndex_eq, if_pos (by omega)]
      exact congrArg some (by omega)
    · have absent3 : ¬ IsPresent 0 := by decide
      rw [if_neg second, if_pos absent3, if_neg]
      rw [pml4Index_eq] at first
      rw [pdptIndex_eq] at second
      omega
  · have absent4 : ¬ IsPresent 0 := by decide
    rw [if_neg first, if_pos absent4, if_neg]
    rw [pml4Index_eq] at first
    omega

end Entries

end Paging
end AuraKernel
