import AuraKernel.Machine.Memory

namespace AuraKernel
namespace Boot

open Machine

/-!
# The boot parser

`kernel/core/multiboot2.c` walks the list of tags that the boot loader leaves in
memory and collects the memory limits and the framebuffer in one record.  The
advance from tag to tag is computed in 32 bits before it is widened, and it is
written out here as the source has it.
-/

def bootloaderMagic : Nat := 0x36d76289

def tagTypeEnd : Nat := 0

def tagTypeBasicMeminfo : Nat := 4

def tagTypeMmap : Nat := 6

def tagTypeFramebuffer : Nat := 8

def memoryAvailable : Nat := 1

def tagHeaderSize : Nat := 8

/-- `sizeof(struct multiboot_tag_mmap)` -/
def mmapHeaderSize : Nat := 16

structure BootInfo where
  totalMemoryBytes : Nat
  availableMemoryBytes : Nat
  fbAddr : Nat
  fbWidth : Nat
  fbHeight : Nat
  fbPitch : Nat
  fbBpp : Nat
  hasFramebuffer : Nat
deriving DecidableEq, Repr

/-- The record as `multiboot2_parse` clears it. -/
def BootInfo.cleared : BootInfo where
  totalMemoryBytes := 0
  availableMemoryBytes := 0
  fbAddr := 0
  fbWidth := 0
  fbHeight := 0
  fbPitch := 0
  fbBpp := 0
  hasFramebuffer := 0

/-! ## Fields of the tags -/

section Fields

variable (mem : Mem) (tag : Nat)

def tagType : Nat := mem.load32 tag

def tagSize : Nat := mem.load32 (tag + 4)

def mmapEntrySize : Nat := mem.load32 (tag + 8)

def entryAddr (entry : Nat) : Nat := mem.load64 entry

def entryLen (entry : Nat) : Nat := mem.load64 (entry + 8)

def entryType (entry : Nat) : Nat := mem.load32 (entry + 16)

def mmapEntries : Nat :=
  wrap32 (sub64 (tagSize mem tag) mmapHeaderSize / mmapEntrySize mem tag)

/-- The address of entry `i`: the product is computed in 32 bits. -/
def mmapEntry (i : Nat) : Nat :=
  tag + mmapHeaderSize + wrap32 (i * mmapEntrySize mem tag)

end Fields

/-- `(tag->size + 7) & ~7ULL`: the sum is computed in 32 bits. -/
def tagAdvance (size : Nat) : Nat := wrap32 (size + 7) &&& (2 ^ 64 - 1 - 7)

/-- The address of the tag behind `tag`. -/
def nextTag (mem : Mem) (tag : Nat) : Nat := wrap64 (tag + tagAdvance (tagSize mem tag))

/-! ## The loops -/

/-- The loop over the first `count` entries of a memory map. -/
def mmapLoop (mem : Mem) (tag : Nat) : Nat → BootInfo → BootInfo
  | 0, info => info
  | count + 1, info =>
      let info := mmapLoop mem tag count info
      let entry := mmapEntry mem tag count
      if entryType mem entry = memoryAvailable then
        { info with
          availableMemoryBytes := wrap64 (info.availableMemoryBytes + entryLen mem entry) }
      else info

/-- The `switch` over the type of a tag; `none` is the trap of a division by zero. -/
def parseTag (mem : Mem) (tag : Nat) (info : BootInfo) : Option BootInfo :=
  if tagType mem tag = tagTypeBasicMeminfo then
    some { info with
      totalMemoryBytes := wrap64 (wrap32 (mem.load32 (tag + tagHeaderSize + 4) + 1024) * 1024) }
  else if tagType mem tag = tagTypeMmap then
    if mmapEntrySize mem tag = 0 then none
    else some (mmapLoop mem tag (mmapEntries mem tag) info)
  else if tagType mem tag = tagTypeFramebuffer then
    some { info with
      fbAddr := mem.load64 (tag + 8)
      fbPitch := mem.load32 (tag + 16)
      fbWidth := mem.load32 (tag + 20)
      fbHeight := mem.load32 (tag + 24)
      fbBpp := mem.load (tag + 28) 1
      hasFramebuffer := 1 }
  else some info

/-- How `multiboot2_parse` can stop. -/
inductive ParseResult where
  | returned (code : Int) (outInfo : Option BootInfo)
  | divideError
deriving DecidableEq, Repr

/-- The `while` loop, for at most `fuel` tags. -/
def tagLoop (mem : Mem) : Nat → Nat → BootInfo → Option ParseResult
  | 0, _, _ => none
  | fuel + 1, tag, info =>
      if tagType mem tag = tagTypeEnd then some (.returned 0 (some info))
      else
        match parseTag mem tag info with
        | none => some .divideError
        | some info => tagLoop mem fuel (nextTag mem tag) info

/-- `multiboot2_parse`; `outInfo` is the record behind the pointer, if it is not NULL. -/
def multiboot2Parse (mem : Mem) (fuel magic mbiAddr : Nat) (outInfo : Option BootInfo) :
    Option ParseResult :=
  match outInfo with
  | none => some (.returned (-1) none)
  | some info =>
      if magic ≠ bootloaderMagic then some (.returned (-1) (some info))
      else tagLoop mem fuel (wrap64 (mbiAddr + 8)) BootInfo.cleared

/-! ## The advance -/

/-- The advance rounds the size up to a multiple of 8, unless the sum wraps. -/
theorem tagAdvance_eq {size : Nat} (room : size + 7 < 2 ^ 32) :
    tagAdvance size = (size + 7) / 8 * 8 := by
  unfold tagAdvance
  rw [wrap32_of_lt room, show (2 : Nat) ^ 64 - 1 - 7 = 2 ^ 64 - 2 ^ 3 from rfl,
    and_highMask (by decide), Nat.mod_eq_of_lt (by omega)]
  rfl

/-- Sizes within 7 of `2 ^ 32` do not advance at all. -/
theorem tagAdvance_of_wrap {size : Nat} (bound : size < 2 ^ 32) (wraps : 2 ^ 32 ≤ size + 7) :
    tagAdvance size = 0 := by
  have small : wrap32 (size + 7) < 8 := by
    unfold wrap32
    omega
  unfold tagAdvance
  rw [show (2 : Nat) ^ 64 - 1 - 7 = 2 ^ 64 - 2 ^ 3 from rfl, and_highMask (by decide),
    Nat.mod_eq_of_lt (by omega), Nat.div_eq_of_lt (by omega), Nat.zero_mul]

/-- A tag moves the walk by a header or more exactly if its size is neither zero
nor within 7 of `2 ^ 32`. -/
theorem le_tagAdvance_iff {size : Nat} (bound : size < 2 ^ 32) :
    8 ≤ tagAdvance size ↔ 1 ≤ size ∧ size ≤ 2 ^ 32 - 8 := by
  by_cases room : size + 7 < 2 ^ 32
  · rw [tagAdvance_eq room]
    omega
  · rw [tagAdvance_of_wrap bound (by omega)]
    omega

theorem tagSize_lt (mem : Mem) (tag : Nat) : tagSize mem tag < 2 ^ 32 := mem.load32_lt _

/-- Otherwise it stays where it is. -/
theorem nextTag_of_stuck {mem : Mem} {tag : Nat} (bound : tag < 2 ^ 64)
    (stuck : ¬ (1 ≤ tagSize mem tag ∧ tagSize mem tag ≤ 2 ^ 32 - 8)) : nextTag mem tag = tag := by
  have sizeLt := tagSize_lt mem tag
  have still : tagAdvance (tagSize mem tag) = 0 := by
    by_cases room : tagSize mem tag + 7 < 2 ^ 32
    · rw [tagAdvance_eq room]
      omega
    · exact tagAdvance_of_wrap sizeLt (by omega)
  unfold nextTag
  rw [still, Nat.add_zero, wrap64_of_lt bound]

end Boot
end AuraKernel
