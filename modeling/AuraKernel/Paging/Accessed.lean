import AuraKernel.Machine.Marks
import AuraKernel.Paging.BootTables

namespace AuraKernel
namespace Paging

open Machine

/-!
# What the processor notes in the tables

A page walk sets the accessed bit of every entry that it uses, and for a write the
dirty bit of the last one.  Neither bit is looked at by a walk, so tables translate
the same however often they were used.
-/

def pteAccessed : UInt8 := 0x20

/-- The accessed and the dirty bit -/
def pteNotes : UInt8 := 0x60

/-- Bits are set in an entry of a table. -/
def noteEntry (table index : Nat) (bits : UInt8) (mem : Mem) : Mem :=
  mem.setBits (table + 8 * index) bits

/-- The tables after a walk for a read or for a write. -/
def hwNote (write : Bool) (pml4 virt : Nat) (mem : Mem) : Mem :=
  let last := if write then pteNotes else pteAccessed
  let pml4e := entry mem pml4 (pml4Index virt)
  if ¬ IsPresent pml4e then mem
  else
    let mem := noteEntry pml4 (pml4Index virt) pteAccessed mem
    let pdpt := pml4e &&& pteAddrMask
    let pdpte := entry mem pdpt (pdptIndex virt)
    if ¬ IsPresent pdpte then mem
    else if IsLarge pdpte then noteEntry pdpt (pdptIndex virt) last mem
    else
      let mem := noteEntry pdpt (pdptIndex virt) pteAccessed mem
      let pd := pdpte &&& pteAddrMask
      let pde := entry mem pd (pdIndex virt)
      if ¬ IsPresent pde then mem
      else if IsLarge pde then noteEntry pd (pdIndex virt) last mem
      else
        let mem := noteEntry pd (pdIndex virt) pteAccessed mem
        let pt := pde &&& pteAddrMask
        if ¬ IsPresent (entry mem pt (ptIndex virt)) then mem
        else noteEntry pt (ptIndex virt) last mem

/-- The entries of all tables are the same but for the notes. -/
def SameEntries (mem mem' : Mem) : Prop :=
  ∀ table index, table % 8 = 0 →
    entry mem' table index ||| pteNotes.toNat = entry mem table index ||| pteNotes.toNat

/-! ## Translations -/

section Entries

variable {e e' : Nat}

/-- A field of an entry without the notes. -/
theorem and_congr_notes (same : e' ||| pteNotes.toNat = e ||| pteNotes.toNat) {mask : Nat}
    (clear : pteNotes.toNat &&& mask = 0) : e' &&& mask = e &&& mask := by
  have both := congrArg (fun entry => entry &&& mask) same
  rw [Nat.and_or_distrib_right, Nat.and_or_distrib_right, clear, Nat.or_zero, Nat.or_zero] at both
  exact both

theorem isPresent_congr (same : e' ||| pteNotes.toNat = e ||| pteNotes.toNat) :
    IsPresent e' ↔ IsPresent e := by
  unfold IsPresent
  rw [and_congr_notes same (by decide)]

theorem isLarge_congr (same : e' ||| pteNotes.toNat = e ||| pteNotes.toNat) :
    IsLarge e' ↔ IsLarge e := by
  unfold IsLarge
  rw [and_congr_notes same (by decide)]

/-- An entry that points to a table, with or without notes. -/
theorem pointer_congr {table : Nat} (same : e ||| pteNotes.toNat = (table + 3) ||| pteNotes.toNat)
    (aligned : table % 2 ^ 12 = 0) (low : table < 2 ^ 32) :
    IsPresent e ∧ ¬ IsLarge e ∧ e &&& pteAddrMask = table := by
  refine ⟨?_, ?_, ?_⟩
  · rw [isPresent_congr same, isPresent_iff]
    omega
  · rw [isLarge_congr same]
    exact not_isLarge_link aligned (by decide)
  · rw [and_congr_notes same (by decide)]
    exact link_and_addrMask aligned (by omega) (by decide)

end Entries

/-- A table behind an entry is aligned. -/
theorem and_addrMask_mod (e : Nat) : (e &&& pteAddrMask) % 8 = 0 := by
  rw [and_addrMask]
  omega

/-- The notes do not matter to a translation. -/
theorem hwTranslate_congr {mem mem' : Mem} (same : SameEntries mem mem') {pml4 : Nat}
    (aligned : pml4 % 8 = 0) (virt : Nat) :
    hwTranslate mem' pml4 virt = hwTranslate mem pml4 virt := by
  have pml4e := same pml4 (pml4Index virt) aligned
  have pdpte := same _ (pdptIndex virt) (and_addrMask_mod (entry mem pml4 (pml4Index virt)))
  have pde := same _ (pdIndex virt) (and_addrMask_mod
    (entry mem (entry mem pml4 (pml4Index virt) &&& pteAddrMask) (pdptIndex virt)))
  have pte := same _ (ptIndex virt) (and_addrMask_mod (entry mem
    (entry mem (entry mem pml4 (pml4Index virt) &&& pteAddrMask) (pdptIndex virt) &&& pteAddrMask)
    (pdIndex virt)))
  unfold hwTranslate
  simp only [isPresent_congr pml4e, and_congr_notes pml4e (show _ &&& pteAddrMask = 0 by decide),
    isPresent_congr pdpte, isLarge_congr pdpte,
    and_congr_notes pdpte (show _ &&& pteAddrMask = 0 by decide),
    and_congr_notes pdpte (show _ &&& hugeAddrMask = 0 by decide), isPresent_congr pde,
    isLarge_congr pde, and_congr_notes pde (show _ &&& pteAddrMask = 0 by decide),
    and_congr_notes pde (show _ &&& largeAddrMask = 0 by decide), isPresent_congr pte,
    and_congr_notes pte (show _ &&& pteAddrMask = 0 by decide)]

/-! ## The boot tables -/

/-- Where the notes in the tables of boot are. -/
def bootNotes (bootPml4 place : Nat) : UInt8 :=
  if bootPml4 ≤ place ∧ place < bootPml4 + 12288 ∧ place % 8 = 0 then pteNotes else 0

section Boot

variable {mem mem' before : Mem} {bootPml4 : Nat}

theorem bootNotes_outside {place : Nat} (outside : place < bootPml4 ∨ bootPml4 + 12288 ≤ place) :
    bootNotes bootPml4 place = 0 := if_neg (by omega)

theorem bootNotes_unaligned {place : Nat} (unaligned : place % 8 ≠ 0) :
    bootNotes bootPml4 place = 0 := if_neg fun inside => unaligned inside.2.2

theorem sameEntries_of_agree (agree : Mem.Agree (bootNotes bootPml4) mem mem') :
    SameEntries mem mem' := by
  intro table index aligned
  have word := @Mem.Agree.load_or _ _ _ (table + 8 * index) 8 agree fun place low high =>
    bootNotes_unaligned (by omega)
  unfold entry
  change mem'.load (table + 8 * index) 8 ||| _ = mem.load (table + 8 * index) 8 ||| _
  by_cases inside : bootPml4 ≤ table + 8 * index ∧ table + 8 * index < bootPml4 + 12288
  · rw [bootNotes, if_pos ⟨inside.1, inside.2, by omega⟩] at word
    exact word
  · rw [bootNotes_outside (by omega), UInt8.toNat_zero, Nat.or_zero, Nat.or_zero] at word
    rw [word]

theorem agree_noteEntry (agree : Mem.Agree (bootNotes bootPml4) mem mem') {table index : Nat}
    (isTable : table % 8 = 0) (low : bootPml4 ≤ table + 8 * index)
    (high : table + 8 * index < bootPml4 + 12288) {bits : UInt8}
    (known : bits ||| pteNotes = pteNotes) :
    Mem.Agree (bootNotes bootPml4) mem (noteEntry table index bits mem') := by
  apply agree.setBits
  rw [bootNotes, if_pos ⟨low, high, by omega⟩]
  exact known

variable (aligned : bootPml4 % 2 ^ 12 = 0) (low : bootPml4 + 12288 ≤ 2 ^ 32)

include aligned low

/-- A walk in the first gigabyte notes its use in the tables of boot only. -/
theorem agree_hwNote (agree : Mem.Agree (bootNotes bootPml4) (bootTables bootPml4 before) mem)
    {virt : Nat} (inside : virt < 2 ^ 30) (write : Bool) :
    Mem.Agree (bootNotes bootPml4) (bootTables bootPml4 before)
      (hwNote write bootPml4 virt mem) := by
  have first : pml4Index virt = 0 := by
    rw [pml4Index_eq]
    omega
  have second : pdptIndex virt = 0 := by
    rw [pdptIndex_eq]
    omega
  have third := pdIndex_lt virt
  have known : (if write then pteNotes else pteAccessed) ||| pteNotes = pteNotes := by
    cases write with
    | false => rfl
    | true => rfl
  have pml4e : entry mem bootPml4 0 ||| pteNotes.toNat = (bootPml4 + 4099) ||| pteNotes.toNat := by
    have same := sameEntries_of_agree agree bootPml4 0 (by omega)
    rw [entry_bootPml4 aligned low (by decide), if_pos rfl] at same
    exact same
  rcases @pointer_congr _ (bootPml4 + 4096) pml4e (by omega) (by omega) with ⟨present4, _, link4⟩
  have agree4 : Mem.Agree (bootNotes bootPml4) (bootTables bootPml4 before)
      (noteEntry bootPml4 0 pteAccessed mem) :=
    agree_noteEntry agree (by omega) (by omega) (by omega) (by decide)
  have pdpte : entry (noteEntry bootPml4 0 pteAccessed mem) (bootPml4 + 4096) 0 |||
      pteNotes.toNat = (bootPml4 + 8195) ||| pteNotes.toNat := by
    have same := sameEntries_of_agree agree4 (bootPml4 + 4096) 0 (by omega)
    rw [entry_bootPdpt aligned low (by decide), if_pos rfl] at same
    exact same
  rcases @pointer_congr _ (bootPml4 + 8192) pdpte (by omega) (by omega) with
    ⟨present3, pointer3, link3⟩
  have agree3 : Mem.Agree (bootNotes bootPml4) (bootTables bootPml4 before)
      (noteEntry (bootPml4 + 4096) 0 pteAccessed (noteEntry bootPml4 0 pteAccessed mem)) :=
    agree_noteEntry agree4 (by omega) (by omega) (by omega) (by decide)
  have pde : entry (noteEntry (bootPml4 + 4096) 0 pteAccessed
      (noteEntry bootPml4 0 pteAccessed mem)) (bootPml4 + 8192) (pdIndex virt) |||
        pteNotes.toNat = (0x83 + pdIndex virt * 0x200000) ||| pteNotes.toNat := by
    have same := sameEntries_of_agree agree3 (bootPml4 + 8192) (pdIndex virt) (by omega)
    rw [entry_bootPd third] at same
    exact same
  have present2 := (isPresent_congr pde).mpr (by rw [isPresent_iff]; omega)
  have large2 := (isLarge_congr pde).mpr (by rw [isLarge_iff_mod]; omega)
  unfold hwNote
  dsimp only
  rw [first, second, if_neg (not_not.mpr present4), link4, if_neg (not_not.mpr present3),
    if_neg pointer3, link3, if_neg (not_not.mpr present2), if_pos large2]
  exact agree_noteEntry agree3 (by omega) (by omega) (by omega) known

end Boot

end Paging
end AuraKernel
