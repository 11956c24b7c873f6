import AuraKernel.Machine.Bytes
import AuraKernel.Boot.TagWalk

namespace AuraKernel
namespace Boot

open Machine

/-!
# Tag streams

The other side of the parser: the tags as a boot loader lays them out.  A tag
may carry an extension behind the fields that the parser knows, a memory map may
have any stride that has room for an entry, and the padding bytes are arbitrary.
-/

/-- An entry of a memory map with what lies behind its three fields. -/
structure MmapEntry where
  addr : Nat
  len : Nat
  type : Nat
  extension : List UInt8
deriving DecidableEq, Repr

/-- The fields of a framebuffer tag. -/
structure Framebuffer where
  addr : Nat
  pitch : Nat
  width : Nat
  height : Nat
  bpp : Nat
  type : Nat
  reserved : Nat
deriving DecidableEq, Repr

inductive Tag where
  | basicMeminfo (memLower memUpper : Nat) (extension : List UInt8)
  | mmap (entrySize entryVersion : Nat) (entries : List MmapEntry)
  | framebuffer (fb : Framebuffer) (extension : List UInt8)
  | other (type : Nat) (payload : List UInt8)
deriving DecidableEq, Repr

structure PaddedTag where
  tag : Tag
  padding : List UInt8
deriving DecidableEq, Repr

/-! ## Serialisation -/

def MmapEntry.bytes (entry : MmapEntry) : List UInt8 :=
  littleEndian 8 entry.addr ++ (littleEndian 8 entry.len ++
    (littleEndian 4 entry.type ++ entry.extension))

def Framebuffer.bytes (fb : Framebuffer) : List UInt8 :=
  littleEndian 8 fb.addr ++ (littleEndian 4 fb.pitch ++ (littleEndian 4 fb.width ++
    (littleEndian 4 fb.height ++ (littleEndian 1 fb.bpp ++ (littleEndian 1 fb.type ++
      littleEndian 2 fb.reserved)))))

namespace Tag

def type : Tag → Nat
  | basicMeminfo _ _ _ => tagTypeBasicMeminfo
  | mmap _ _ _ => tagTypeMmap
  | framebuffer _ _ => tagTypeFramebuffer
  | other type _ => type

/-- What lies behind the header. -/
def payload : Tag → List UInt8
  | basicMeminfo memLower memUpper extension =>
      littleEndian 4 memLower ++ (littleEndian 4 memUpper ++ extension)
  | mmap entrySize entryVersion entries =>
      littleEndian 4 entrySize ++ (littleEndian 4 entryVersion ++ entries.flatMap MmapEntry.bytes)
  | framebuffer fb extension => fb.bytes ++ extension
  | other _ payload => payload

/-- The size of a tag with its header and without its padding. -/
def size (tag : Tag) : Nat := tagHeaderSize + tag.payload.length

/-- The size of a tag rounded up to a multiple of 8. -/
def paddedSize (tag : Tag) : Nat := (tag.size + 7) / 8 * 8

def bytes (tag : Tag) : List UInt8 :=
  littleEndian 4 tag.type ++ (littleEndian 4 tag.size ++ tag.payload)

end Tag

def PaddedTag.bytes (padded : PaddedTag) : List UInt8 := padded.tag.bytes ++ padded.padding

/-- A list of tags, ended by an end tag. -/
def serialise : List PaddedTag → List UInt8
  | [] => littleEndian 4 tagTypeEnd ++ littleEndian 4 tagHeaderSize
  | padded :: rest => padded.bytes ++ serialise rest

/-! ## Well-formed tags -/

/-- The fields of an entry fit, and it fills the stride. -/
structure MmapEntry.WellFormed (entrySize : Nat) (entry : MmapEntry) : Prop where
  addr_lt : entry.addr < 2 ^ 64
  len_lt : entry.len < 2 ^ 64
  type_lt : entry.type < 2 ^ 32
  length_eq : 20 + entry.extension.length = entrySize

/-- The fields of a framebuffer fit. -/
structure Framebuffer.WellFormed (fb : Framebuffer) : Prop where
  addr_lt : fb.addr < 2 ^ 64
  pitch_lt : fb.pitch < 2 ^ 32
  width_lt : fb.width < 2 ^ 32
  height_lt : fb.height < 2 ^ 32
  bpp_lt : fb.bpp < 2 ^ 8

/-- What the fields of a tag have to satisfy. -/
def Tag.FieldsFit : Tag → Prop
  | .basicMeminfo _ memUpper _ => memUpper < 2 ^ 32 - 1024
  | .mmap entrySize _ entries =>
      24 ≤ entrySize ∧ entrySize < 2 ^ 32 ∧ ∀ entry ∈ entries, entry.WellFormed entrySize
  | .framebuffer fb _ => fb.WellFormed
  | .other type _ => type < 2 ^ 32 ∧ type ≠ tagTypeEnd ∧ type ≠ tagTypeBasicMeminfo ∧
      type ≠ tagTypeMmap ∧ type ≠ tagTypeFramebuffer

/-- A tag whose fields fit, whose padded size fits in 32 bits, and whose padding
reaches up to the next multiple of 8. -/
structure PaddedTag.WellFormed (padded : PaddedTag) : Prop where
  fields : padded.tag.FieldsFit
  size_lt : padded.tag.paddedSize < 2 ^ 32
  padding_eq : padded.tag.size + padded.padding.length = padded.tag.paddedSize

/-! ## What the parser makes of a tag -/

/-- An entry of a memory map adds its length if it is available. -/
def MmapEntry.add (info : BootInfo) (entry : MmapEntry) : BootInfo :=
  if entry.type = memoryAvailable then
    { info with availableMemoryBytes := wrap64 (info.availableMemoryBytes + entry.len) }
  else info

def Tag.apply (info : BootInfo) : Tag → BootInfo
  | .basicMeminfo _ memUpper _ => { info with totalMemoryBytes := (memUpper + 1024) * 1024 }
  | .mmap _ _ entries => entries.foldl MmapEntry.add info
  | .framebuffer fb _ =>
      { info with
        fbAddr := fb.addr
        fbPitch := fb.pitch
        fbWidth := fb.width
        fbHeight := fb.height
        fbBpp := fb.bpp
        hasFramebuffer := 1 }
  | .other _ _ => info

section Layout

variable {mem : Mem} {addr : Nat} {tag : Tag} {entries : List MmapEntry} {entrySize : Nat}

theorem MmapEntry.WellFormed.length_bytes {entry : MmapEntry}
    (wellFormed : entry.WellFormed entrySize) : entry.bytes.length = entrySize := by
  have length := wellFormed.length_eq
  unfold MmapEntry.bytes
  simp only [List.length_append, length_littleEndian]
  omega

theorem length_entries (wellFormed : ∀ entry ∈ entries, entry.WellFormed entrySize) :
    (entries.flatMap MmapEntry.bytes).length = entries.length * entrySize := by
  induction entries with
  | nil => simp
  | cons entry rest inductionHypothesis =>
      rw [List.flatMap_cons, List.length_append, List.length_cons, Nat.succ_mul, Nat.add_comm,
        inductionHypothesis fun other member => wellFormed other (List.mem_cons_of_mem _ member),
        (wellFormed entry (List.mem_cons_self ..)).length_bytes]

/-- The entries of a memory map lie one stride apart. -/
theorem holds_entry (wellFormed : ∀ entry ∈ entries, entry.WellFormed entrySize)
    (holds : Holds mem addr (entries.flatMap MmapEntry.bytes)) {index : Nat}
    (bound : index < entries.length) :
    Holds mem (addr + index * entrySize) (entries[index]).bytes := by
  induction entries generalizing addr index with
  | nil => exact absurd bound (Nat.not_lt_zero _)
  | cons entry rest inductionHypothesis =>
      rw [List.flatMap_cons, holds_append,
        (wellFormed entry (List.mem_cons_self ..)).length_bytes] at holds
      cases index with
      | zero =>
          rw [Nat.zero_mul, Nat.add_zero]
          exact holds.1
      | succ index =>
          rw [Nat.succ_mul, Nat.add_comm (index * entrySize), ← Nat.add_assoc]
          exact inductionHypothesis
            (fun other member => wellFormed other (List.mem_cons_of_mem _ member)) holds.2
            (Nat.lt_of_succ_lt_succ bound)

/-- The loop over the entries is the fold over the list. -/
theorem mmapLoop_eq (wellFormed : ∀ entry ∈ entries, entry.WellFormed entrySize)
    (stride : mmapEntrySize mem addr = entrySize)
    (small : entries.length * entrySize < 2 ^ 32)
    (holds : Holds mem (addr + mmapHeaderSize) (entries.flatMap MmapEntry.bytes)) (info : BootInfo)
    {count : Nat} (bound : count ≤ entries.length) :
    mmapLoop mem addr count info = (entries.take count).foldl MmapEntry.add info := by
  induction count with
  | zero => rfl
  | succ count inductionHypothesis =>
      have less : count < entries.length := bound
      have entryFits := wellFormed _ (List.getElem_mem less)
      have entryHolds := holds_entry wellFormed holds less
      have product : count * entrySize < 2 ^ 32 :=
        Nat.lt_of_le_of_lt (Nat.mul_le_mul_right _ (Nat.le_of_lt less)) small
      unfold MmapEntry.bytes at entryHolds
      simp only [holds_append, length_littleEndian] at entryHolds
      rcases entryHolds with ⟨_, lenHolds, typeHolds, _⟩
      have lenEq := lenHolds.load64 entryFits.len_lt
      have typeEq := typeHolds.load32 entryFits.type_lt
      rw [Nat.add_assoc _ 8 8] at typeEq
      rw [mmapLoop, inductionHypothesis (Nat.le_of_lt less), List.take_add_one,
        List.getElem?_eq_getElem less, List.foldl_append]
      unfold mmapEntry entryType entryLen
      rw [stride, wrap32_of_lt product, lenEq, typeEq]
      rfl

theorem Tag.FieldsFit.type_facts (fields : tag.FieldsFit) :
    tag.type < 2 ^ 32 ∧ tag.type ≠ tagTypeEnd := by
  cases tag with
  | basicMeminfo memLower memUpper extension =>
      exact ⟨(by decide : tagTypeBasicMeminfo < 2 ^ 32), (by decide : tagTypeBasicMeminfo ≠ _)⟩
  | mmap entrySize entryVersion entries =>
      exact ⟨(by decide : tagTypeMmap < 2 ^ 32), (by decide : tagTypeMmap ≠ _)⟩
  | framebuffer fb extension =>
      exact ⟨(by decide : tagTypeFramebuffer < 2 ^ 32), (by decide : tagTypeFramebuffer ≠ _)⟩
  | other type payload => exact ⟨fields.1, fields.2.1⟩

/-- The parser takes a laid-out tag for what it is. -/
theorem parseTag_eq (fields : tag.FieldsFit) (sizeLt : tag.size < 2 ^ 32)
    (holds : Holds mem addr tag.bytes) (info : BootInfo) :
    tagType mem addr = tag.type ∧ tagSize mem addr = tag.size ∧
      parseTag mem addr info = some (tag.apply info) := by
  unfold Tag.bytes at holds
  simp only [holds_append, length_littleEndian] at holds
  rcases holds with ⟨typeHolds, sizeHolds, payload⟩
  rw [Nat.add_assoc addr 4 4] at payload
  have sizeEq : tagSize mem addr = tag.size := sizeHolds.load32 sizeLt
  have typeEq : tagType mem addr = tag.type := typeHolds.load32 fields.type_facts.1
  have differs : ∀ {type : Nat}, tag.type ≠ type → tagType mem addr ≠ type :=
    fun different same => different (typeEq.symm.trans same)
  refine ⟨typeEq, sizeEq, ?_⟩
  cases tag with
  | basicMeminfo memLower memUpper extension =>
      simp only [Tag.payload, holds_append, length_littleEndian] at payload
      simp only [Tag.type] at typeEq differs
      have upperLt : memUpper < 2 ^ 32 - 1024 := fields
      have upper : mem.load32 (addr + tagHeaderSize + 4) = memUpper :=
        payload.2.1.load32 (by omega)
      unfold parseTag
      rw [if_pos typeEq, upper, wrap32_of_lt (by omega), wrap64_of_lt (by omega)]
      rfl
  | mmap entrySize entryVersion entries =>
      simp only [Tag.type] at typeEq differs
      rcases fields with ⟨wide, strideLt, entriesFit⟩
      simp only [Tag.payload, holds_append, length_littleEndian] at payload
      rcases payload with ⟨strideHolds, _, entriesHold⟩
      have stride : mmapEntrySize mem addr = entrySize := strideHolds.load32 strideLt
      have total : (Tag.mmap entrySize entryVersion entries).size =
          mmapHeaderSize + entries.length * entrySize := by
        unfold Tag.size Tag.payload tagHeaderSize mmapHeaderSize
        rw [List.length_append, List.length_append, length_littleEndian, length_littleEndian,
          length_entries entriesFit]
        omega
      rw [total] at sizeLt
      have product : entries.length * entrySize < 2 ^ 32 := by omega
      have few : entries.length ≤ entries.length * entrySize :=
        Nat.le_mul_of_pos_right _ (by omega)
      have count : mmapEntries mem addr = entries.length := by
        unfold mmapEntries
        rw [sizeEq, stride, total, sub64_of_le (Nat.le_add_right _ _), Nat.add_sub_cancel_left,
          Nat.mul_div_cancel _ (by omega), wrap32_of_lt (by omega)]
      unfold parseTag
      rw [if_neg (differs (by decide)), if_pos typeEq, if_neg (by omega), count,
        mmapLoop_eq entriesFit stride product entriesHold info (Nat.le_refl _), List.take_length]
      rfl
  | framebuffer fb extension =>
      simp only [Tag.type] at typeEq differs
      have fits : fb.WellFormed := fields
      simp only [Tag.payload, Framebuffer.bytes, holds_append, length_littleEndian] at payload
      rcases payload with ⟨⟨addrHolds, pitchHolds, widthHolds, heightHolds, bppHolds, _, _⟩, _⟩
      have addrEq := addrHolds.load64 fits.addr_lt
      have pitchEq := pitchHolds.load32 fits.pitch_lt
      have widthEq := widthHolds.load32 fits.width_lt
      have heightEq := heightHolds.load32 fits.height_lt
      have bppEq := bppHolds.load.trans (Nat.mod_eq_of_lt fits.bpp_lt)
      simp only [Nat.add_assoc, Nat.reduceAdd] at addrEq pitchEq widthEq heightEq bppEq
      unfold parseTag
      rw [if_neg (differs (by decide)), if_neg (differs (by decide)), if_pos typeEq, addrEq,
        pitchEq, widthEq, heightEq, bppEq]
      rfl
  | other type payload' =>
      simp only [Tag.type] at typeEq differs
      rcases fields with ⟨_, _, notMeminfo, notMmap, notFramebuffer⟩
      unfold parseTag
      rw [if_neg (differs notMeminfo), if_neg (differs notMmap), if_neg (differs notFramebuffer)]
      rfl

end Layout

end Boot
end AuraKernel
