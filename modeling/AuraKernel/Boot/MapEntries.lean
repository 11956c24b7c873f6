import AuraKernel.Boot.TagWalk

namespace AuraKernel
namespace Boot

open Machine

/-!
# The entries of a memory map

The parser divides the size of an MMAP tag, less its header, by the stride in
the header, and takes the quotient for the number of entries.  Nothing is
checked: the difference wraps for a tag that is smaller than its header, the
stride may be zero, and it may be smaller than an entry.  This module lists the
fields that the loop reads and says for which sizes and strides they all lie in
the tag.
-/

structure Field where
  addr : Nat
  width : Nat
deriving DecidableEq, Repr

/-- The field lies between `low` and `high`. -/
def Field.Within (field : Field) (low high : Nat) : Prop :=
  low ≤ field.addr ∧ field.addr + field.width ≤ high

/-- The bytes of the field are the same in two memories. -/
def Field.Same (field : Field) (mem mem' : Mem) : Prop :=
  ∀ place, field.addr ≤ place → place < field.addr + field.width → mem' place = mem place

section Reads

variable (mem : Mem) (tag : Nat)

/-- What the loop reads of entry `i`: its type, and its length if it is available. -/
def entryReads (i : Nat) : List Field :=
  ⟨mmapEntry mem tag i + 16, 4⟩ ::
    if entryType mem (mmapEntry mem tag i) = memoryAvailable then [⟨mmapEntry mem tag i + 8, 8⟩]
    else []

/-- What `mmapLoop` reads of the first `count` entries, with the same recursion. -/
def mmapReads : Nat → List Field
  | 0 => []
  | count + 1 => mmapReads count ++ entryReads mem tag count

/-- An MMAP tag is read as it should be: the count does not divide by zero, every field read
lies in the tag, and the available memory depends on the bytes of the tag alone. -/
structure MmapInside : Prop where
  divides : ∀ info, parseTag mem tag info ≠ none
  inside : ∀ field ∈ mmapReads mem tag (mmapEntries mem tag),
    field.Within tag (tag + tagSize mem tag)
  depends : ∀ mem' info info', (Field.mk tag (tagSize mem tag)).Same mem mem' →
    info'.availableMemoryBytes = info.availableMemoryBytes →
    (parseTag mem' tag info').map BootInfo.availableMemoryBytes =
      (parseTag mem tag info).map BootInfo.availableMemoryBytes

end Reads

/-- The sizes and strides of the tags that are read inside.  In the first case the wrapped
difference divided by the stride is `2 ^ 32`, which is no entry in 32 bits. -/
def EntriesFit (size entrySize : Nat) : Prop :=
  entrySize ≠ 0 ∧
    ((12 ≤ size ∧ size < 15 ∧ entrySize = 2 ^ 32 - 1) ∨
      (16 ≤ size ∧ (size < 16 + entrySize ∨ 20 ≤ entrySize + (size - 16) % entrySize)))

instance (size entrySize : Nat) : Decidable (EntriesFit size entrySize) :=
  inferInstanceAs (Decidable (_ ∧ _))

/-! ## The number of entries -/

section Count

variable {mem : Mem} {tag : Nat}

theorem mmapEntrySize_lt (mem : Mem) (tag : Nat) : mmapEntrySize mem tag < 2 ^ 32 :=
  mem.load32_lt _

theorem mmapEntries_of_le (header : 16 ≤ tagSize mem tag) :
    mmapEntries mem tag = (tagSize mem tag - 16) / mmapEntrySize mem tag := by
  have sizeLt := tagSize_lt mem tag
  have quotientLe := Nat.div_le_self (tagSize mem tag - 16) (mmapEntrySize mem tag)
  unfold mmapEntries mmapHeaderSize
  rw [sub64_of_le header, wrap32_of_lt (by omega)]

/-- A quotient of almost `2 ^ 64` is a multiple of `2 ^ 32` for one divisor only. -/
theorem wrapped_quotient_iff {rest stride : Nat} (small : rest < 16) (positive : 0 < stride)
    (strideLt : stride < 2 ^ 32) :
    (2 ^ 64 - 16 + rest) / stride % 2 ^ 32 = 0 ↔ rest < 15 ∧ stride = 2 ^ 32 - 1 := by
  constructor
  · intro multiple
    rcases Nat.dvd_of_mod_eq_zero multiple with ⟨factor, quotientEq⟩
    have low := Nat.div_mul_le_self (2 ^ 64 - 16 + rest) stride
    have high := Nat.lt_mul_div_succ (2 ^ 64 - 16 + rest) positive
    rw [quotientEq] at low high
    -- the multiple of `2 ^ 32` closest to the dividend is `2 ^ 32 * (2 ^ 32 - 1)`
    have product : 2 ^ 32 * factor * stride = 2 ^ 32 * (factor * stride) := Nat.mul_assoc _ _ _
    have product' : stride * (2 ^ 32 * factor + 1) = 2 ^ 32 * (factor * stride) + stride := by ring
    have productEq : factor * stride = 2 ^ 32 - 1 := by omega
    have one : factor = 1 := by
      rcases Nat.lt_or_ge 1 factor with two | le
      · have twice := Nat.mul_le_mul_right stride two
        omega
      · rcases Nat.eq_zero_or_pos factor with rfl | pos
        · omega
        · omega
    rw [one, Nat.one_mul] at productEq
    omega
  · rintro ⟨less, rfl⟩
    have quotientEq : (2 ^ 64 - 16 + rest) / (2 ^ 32 - 1) = 2 ^ 32 := by omega
    rw [quotientEq, Nat.mod_self]

/-- In a tag that is smaller than its header there is always an entry, with one exception. -/
theorem mmapEntries_eq_zero_iff (short : tagSize mem tag < 16) (stride : mmapEntrySize mem tag ≠ 0) :
    mmapEntries mem tag = 0 ↔ tagSize mem tag < 15 ∧ mmapEntrySize mem tag = 2 ^ 32 - 1 := by
  have difference : sub64 (tagSize mem tag) mmapHeaderSize = 2 ^ 64 - 16 + tagSize mem tag := by
    unfold sub64 mmapHeaderSize
    rw [if_neg (by omega)]
    omega
  unfold mmapEntries wrap32
  rw [difference]
  exact wrapped_quotient_iff short (Nat.pos_of_ne_zero stride) (mmapEntrySize_lt mem tag)

end Count

/-! ## The fields that are read -/

section Fields

variable {mem mem' : Mem} {tag : Nat}

theorem mem_mmapReads {count : Nat} {field : Field} :
    field ∈ mmapReads mem tag count ↔ ∃ i < count, field ∈ entryReads mem tag i := by
  induction count with
  | zero => simp [mmapReads]
  | succ count inductionHypothesis =>
      rw [mmapReads, List.mem_append, inductionHypothesis]
      constructor
      · rintro (⟨i, less, member⟩ | member)
        · exact ⟨i, Nat.lt_succ_of_lt less, member⟩
        · exact ⟨count, Nat.lt_succ_self count, member⟩
      · rintro ⟨i, less, member⟩
        rcases Nat.lt_succ_iff_lt_or_eq.mp less with earlier | rfl
        · exact Or.inl ⟨i, earlier, member⟩
        · exact Or.inr member

theorem type_mem_mmapReads {count i : Nat} (less : i < count) :
    Field.mk (mmapEntry mem tag i + 16) 4 ∈ mmapReads mem tag count :=
  mem_mmapReads.mpr ⟨i, less, List.mem_cons_self ..⟩

/-- Both fields of an entry end where its type ends. -/
theorem within_of_mem_entryReads {i high : Nat} (fits : mmapEntry mem tag i + 20 ≤ high)
    {field : Field} (member : field ∈ entryReads mem tag i) : field.Within tag high := by
  have behind : tag ≤ mmapEntry mem tag i := by
    unfold mmapEntry
    omega
  rcases List.mem_cons.mp member with rfl | rest
  · exact ⟨by simp only; omega, by simp only; omega⟩
  · by_cases available : entryType mem (mmapEntry mem tag i) = memoryAvailable
    · rw [if_pos available, List.mem_singleton] at rest
      subst rest
      exact ⟨by simp only; omega, by simp only; omega⟩
    · rw [if_neg available] at rest
      cases rest

/-- The loop depends on the fields it reads, and on nothing else. -/
theorem mmapLoop_congr {count : Nat} {info info' : BootInfo}
    (stride : mmapEntrySize mem' tag = mmapEntrySize mem tag)
    (same : ∀ field ∈ mmapReads mem tag count, field.Same mem mem')
    (start : info'.availableMemoryBytes = info.availableMemoryBytes) :
    (mmapLoop mem' tag count info').availableMemoryBytes =
      (mmapLoop mem tag count info).availableMemoryBytes := by
  induction count with
  | zero => exact start
  | succ count inductionHypothesis =>
      have before := inductionHypothesis fun field member =>
        same field (List.mem_append_left _ member)
      have entry : mmapEntry mem' tag count = mmapEntry mem tag count := by
        unfold mmapEntry
        rw [stride]
      have type : entryType mem' (mmapEntry mem tag count) =
          entryType mem (mmapEntry mem tag count) :=
        Mem.load_congr (same _ (type_mem_mmapReads (Nat.lt_succ_self count)))
      simp only [mmapLoop, entry, type]
      by_cases available : entryType mem (mmapEntry mem tag count) = memoryAvailable
      · have len : entryLen mem' (mmapEntry mem tag count) =
            entryLen mem (mmapEntry mem tag count) := by
          refine Mem.load_congr (same ⟨mmapEntry mem tag count + 8, 8⟩ ?_)
          refine List.mem_append_right _ (List.mem_cons_of_mem _ ?_)
          rw [if_pos available]
          exact List.mem_singleton_self _
        rw [if_pos available, if_pos available, len, before]
      · rw [if_neg available, if_neg available]
        exact before

theorem parseTag_mmap {info : BootInfo} (isMmap : tagType mem tag = tagTypeMmap)
    (stride : mmapEntrySize mem tag ≠ 0) :
    parseTag mem tag info = some (mmapLoop mem tag (mmapEntries mem tag) info) := by
  unfold parseTag
  rw [isMmap, if_neg (by decide), if_pos rfl, if_neg stride]

end Fields

/-! ## Tags that are read inside -/

section Inside

variable {mem : Mem} {tag : Nat}

/-- The offset of an entry that lies in the tag does not wrap. -/
theorem mmapEntry_of_lt {i : Nat} (small : i * mmapEntrySize mem tag < 2 ^ 32) :
    mmapEntry mem tag i = tag + 16 + i * mmapEntrySize mem tag := by
  unfold mmapEntry mmapHeaderSize
  rw [wrap32_of_lt small]

theorem reads_inside {mem : Mem} {tag : Nat} (header : 16 ≤ tagSize mem tag)
    (stride : mmapEntrySize mem tag ≠ 0)
    (room : tagSize mem tag < 16 + mmapEntrySize mem tag ∨
      20 ≤ mmapEntrySize mem tag + (tagSize mem tag - 16) % mmapEntrySize mem tag) :
    ∀ field ∈ mmapReads mem tag (mmapEntries mem tag), field.Within tag (tag + tagSize mem tag) := by
  intro field member
  rcases mem_mmapReads.mp member with ⟨i, less, inEntry⟩
  refine within_of_mem_entryReads ?_ inEntry
  have sizeLt := tagSize_lt mem tag
  have positive := Nat.pos_of_ne_zero stride
  have split := Nat.div_add_mod (tagSize mem tag - 16) (mmapEntrySize mem tag)
  rw [mmapEntries_of_le header] at less
  -- the entry and all entries behind it fill what the remainder leaves
  have upTo := Nat.mul_le_mul_left (mmapEntrySize mem tag) (Nat.succ_le_of_lt less)
  rw [Nat.mul_succ, Nat.mul_comm (mmapEntrySize mem tag) i] at upTo
  have remainder := Nat.mod_lt (tagSize mem tag - 16) positive
  rw [mmapEntry_of_lt (by omega)]
  omega

/-- Where the fields read lie inside, there is no entry, or room for the last one. -/
theorem room_of_inside (stride : mmapEntrySize mem tag ≠ 0)
    (inside : ∀ field ∈ mmapReads mem tag (mmapEntries mem tag),
      field.Within tag (tag + tagSize mem tag)) :
    (tagSize mem tag < 15 ∧ mmapEntrySize mem tag = 2 ^ 32 - 1) ∨
      (16 ≤ tagSize mem tag ∧ (tagSize mem tag < 16 + mmapEntrySize mem tag ∨
        20 ≤ mmapEntrySize mem tag + (tagSize mem tag - 16) % mmapEntrySize mem tag)) := by
  have sizeLt := tagSize_lt mem tag
  have last : ∀ i < mmapEntries mem tag, mmapEntry mem tag i + 20 ≤ tag + tagSize mem tag :=
    fun i less => (inside _ (type_mem_mmapReads less)).2
  by_cases none : mmapEntries mem tag = 0
  · by_cases header : 16 ≤ tagSize mem tag
    · rw [mmapEntries_of_le header] at none
      have less := (Nat.div_eq_zero_iff.mp none).resolve_left stride
      exact Or.inr ⟨header, Or.inl (by omega)⟩
    · exact Or.inl ((mmapEntries_eq_zero_iff (Nat.lt_of_not_le header) stride).mp none)
  · have first := last 0 (Nat.pos_of_ne_zero none)
    rw [mmapEntry_of_lt (by omega)] at first
    have header : 16 ≤ tagSize mem tag := by omega
    refine Or.inr ⟨header, Or.inr ?_⟩
    have count := mmapEntries_of_le header
    rcases Nat.exists_eq_succ_of_ne_zero none with ⟨rest, isSucc⟩
    have split := Nat.div_add_mod (tagSize mem tag - 16) (mmapEntrySize mem tag)
    rw [← count, isSucc, Nat.mul_succ, Nat.mul_comm] at split
    have final := last rest (by omega)
    rw [mmapEntry_of_lt (by omega)] at final
    omega

/-- The stride is in the tag, and so are all fields read: other memory does not matter. -/
theorem parseTag_depends {mem' : Mem} {info info' : BootInfo}
    (isMmap : tagType mem tag = tagTypeMmap) (stride : mmapEntrySize mem tag ≠ 0)
    (header : 12 ≤ tagSize mem tag)
    (inside : ∀ field ∈ mmapReads mem tag (mmapEntries mem tag),
      field.Within tag (tag + tagSize mem tag))
    (same : (Field.mk tag (tagSize mem tag)).Same mem mem')
    (start : info'.availableMemoryBytes = info.availableMemoryBytes) :
    (parseTag mem' tag info').map BootInfo.availableMemoryBytes =
      (parseTag mem tag info).map BootInfo.availableMemoryBytes := by
  have word : ∀ addr, tag ≤ addr → addr + 4 ≤ tag + 12 → mem'.load32 addr = mem.load32 addr :=
    fun addr low high => Mem.load_congr fun place first last =>
      same place (Nat.le_trans low first) (by simp only; omega)
  have type : tagType mem' tag = tagType mem tag := word tag (Nat.le_refl _) (by omega)
  have size : tagSize mem' tag = tagSize mem tag := word (tag + 4) (by omega) (by omega)
  have strideEq : mmapEntrySize mem' tag = mmapEntrySize mem tag :=
    word (tag + 8) (by omega) (by omega)
  have count : mmapEntries mem' tag = mmapEntries mem tag := by
    unfold mmapEntries
    rw [size, strideEq]
  rw [parseTag_mmap isMmap stride, parseTag_mmap (type.trans isMmap) (strideEq.trans_ne stride),
    count]
  refine congrArg some (mmapLoop_congr strideEq (fun field member => ?_) start)
  rcases inside field member with ⟨low, high⟩
  exact fun place first last => same place (Nat.le_trans low first)
    (Nat.lt_of_lt_of_le last high)

end Inside

/-! ## The stride outside the tag -/

section Outside

variable {mem : Mem} {tag : Nat}

/-- The memory with another last byte of the stride, and behind it an available entry of one
byte and nothing else. -/
def otherStride (mem : Mem) (tag : Nat) : Mem := fun place =>
  if place < tag + 11 then mem place
  else if place = tag + 24 ∨ place = tag + 32 then 1
  else 0

theorem otherStride_of_lt {place : Nat} (less : place < tag + 11) :
    otherStride mem tag place = mem place := if_pos less

theorem otherStride_load32 {addr : Nat} (less : addr + 4 ≤ tag + 11) :
    (otherStride mem tag).load32 addr = mem.load32 addr :=
  Mem.load_congr fun _ _ _ => otherStride_of_lt (by omega)

theorem otherStride_eq_zero {place : Nat} (behind : tag + 11 ≤ place) (first : place ≠ tag + 24)
    (second : place ≠ tag + 32) : otherStride mem tag place = 0 := by
  unfold otherStride
  rw [if_neg (Nat.not_lt.mpr behind), if_neg (not_or.mpr ⟨first, second⟩)]

theorem load32_eq (mem : Mem) (addr : Nat) :
    mem.load32 addr = (mem addr).toNat + 256 * ((mem (addr + 1)).toNat +
      256 * ((mem (addr + 2)).toNat + 256 * (mem (addr + 3)).toNat)) := by
  simp only [Mem.load32, Mem.load, Nat.mul_zero, Nat.add_zero, Nat.add_assoc]

/-- A byte of 1 with zeros behind it reads as 1. -/
theorem load_of_one {addr count : Nat} (first : mem addr = 1)
    (rest : ∀ place, addr + 1 ≤ place → place < addr + 1 + count → mem place = 0) :
    mem.load addr (count + 1) = 1 := by
  rw [Mem.load, first, Mem.load_of_zero rest]
  rfl

/-- The stride was `2 ^ 32 - 1`, and is `2 ^ 24 - 1` now. -/
theorem otherStride_entrySize (stride : mmapEntrySize mem tag = 2 ^ 32 - 1) :
    mmapEntrySize (otherStride mem tag) tag = 2 ^ 24 - 1 := by
  unfold mmapEntrySize at stride ⊢
  rw [load32_eq] at stride ⊢
  rw [otherStride_of_lt (by omega), otherStride_of_lt (by omega), otherStride_of_lt (by omega),
    otherStride_eq_zero (by omega) (by omega) (by omega), UInt8.toNat_zero]
  have byte0 := (mem (tag + 8)).toNat_lt
  have byte1 := (mem (tag + 8 + 1)).toNat_lt
  have byte2 := (mem (tag + 8 + 2)).toNat_lt
  have byte3 := (mem (tag + 8 + 3)).toNat_lt
  omega

/-- The offsets of the other entries differ from 0: the stride is odd. -/
theorem offset_pos {i : Nat} (positive : 0 < i) (bound : i < 2 ^ 32) :
    0 < wrap32 (i * (2 ^ 24 - 1)) := by
  refine Nat.pos_of_ne_zero fun zero => ?_
  have coprime : Nat.Coprime (2 ^ 32) (2 ^ 24 - 1) := by decide
  have multiple : 2 ^ 32 ∣ i := coprime.dvd_of_dvd_mul_right (Nat.dvd_of_mod_eq_zero zero)
  exact absurd (Nat.le_of_dvd positive multiple) (Nat.not_le_of_lt bound)

/-- The first entry is available and has one byte, and no other entry is available. -/
theorem otherStride_mmapLoop (stride : mmapEntrySize mem tag = 2 ^ 32 - 1) {count : Nat}
    (bound : count ≤ 2 ^ 32) :
    (mmapLoop (otherStride mem tag) tag count BootInfo.cleared).availableMemoryBytes =
      if count = 0 then 0 else 1 := by
  have entry : ∀ i, mmapEntry (otherStride mem tag) tag i =
      tag + 16 + wrap32 (i * (2 ^ 24 - 1)) := by
    intro i
    unfold mmapEntry mmapHeaderSize
    rw [otherStride_entrySize stride]
  induction count with
  | zero => rfl
  | succ count inductionHypothesis =>
      have before := inductionHypothesis (Nat.le_of_succ_le bound)
      rw [if_neg (Nat.succ_ne_zero count)]
      simp only [mmapLoop]
      by_cases first : count = 0
      · subst first
        have place : mmapEntry (otherStride mem tag) tag 0 = tag + 16 := by
          rw [entry, Nat.zero_mul]
          rfl
        have one : ∀ place, place = tag + 24 ∨ place = tag + 32 →
            otherStride mem tag place = 1 := by
          intro place isOne
          unfold otherStride
          rw [if_neg (by omega), if_pos isOne]
        have available : entryType (otherStride mem tag) (tag + 16) = memoryAvailable :=
          load_of_one (one _ (by omega)) fun place low high =>
            otherStride_eq_zero (by omega) (by omega) (by omega)
        have len : entryLen (otherStride mem tag) (tag + 16) = 1 :=
          load_of_one (one _ (by omega)) fun place low high =>
            otherStride_eq_zero (by omega) (by omega) (by omega)
        rw [place, if_pos available, len]
        rfl
      · have offset := offset_pos (Nat.pos_of_ne_zero first) (Nat.lt_of_succ_le bound)
        have unavailable : entryType (otherStride mem tag)
            (mmapEntry (otherStride mem tag) tag count) = 0 :=
          Mem.load_of_zero fun place low high =>
            otherStride_eq_zero (by rw [entry] at low; omega) (by rw [entry] at low; omega)
              (by rw [entry] at low; omega)
        rw [unavailable, if_neg (by decide), before, if_neg first]

/-- A tag of less than 12 bytes does not contain its stride. -/
theorem not_depends (isMmap : tagType mem tag = tagTypeMmap) (short : tagSize mem tag < 12)
    (stride : mmapEntrySize mem tag = 2 ^ 32 - 1) : ¬ MmapInside mem tag := by
  intro inside
  have same : (Field.mk tag (tagSize mem tag)).Same mem (otherStride mem tag) :=
    fun place _ less => otherStride_of_lt (by simp only at less; omega)
  have depends := inside.depends _ BootInfo.cleared BootInfo.cleared same rfl
  have isMmap' : tagType (otherStride mem tag) tag = tagTypeMmap :=
    (otherStride_load32 (by omega)).trans isMmap
  have size' : tagSize (otherStride mem tag) tag = tagSize mem tag :=
    otherStride_load32 (by omega)
  have stride' := @otherStride_entrySize mem tag stride
  have none : mmapEntries mem tag = 0 :=
    (mmapEntries_eq_zero_iff (by omega) (by omega)).mpr ⟨by omega, stride⟩
  have some' : mmapEntries (otherStride mem tag) tag ≠ 0 := by
    intro zero
    have other := (mmapEntries_eq_zero_iff (by omega) (by omega)).mp zero
    omega
  have bound : mmapEntries (otherStride mem tag) tag ≤ 2 ^ 32 :=
    Nat.le_of_lt (Nat.mod_lt _ (by decide))
  rw [parseTag_mmap isMmap' (by omega), parseTag_mmap isMmap (by omega), none, Option.map_some,
    Option.map_some, otherStride_mmapLoop stride bound, if_neg some'] at depends
  exact absurd depends (show ¬ some 1 = some 0 by decide)

end Outside

/-- An MMAP tag is read inside exactly for the sizes and strides that fit. -/
theorem mmapInside_iff {mem : Mem} {tag : Nat} (isMmap : tagType mem tag = tagTypeMmap) :
    MmapInside mem tag ↔ EntriesFit (tagSize mem tag) (mmapEntrySize mem tag) := by
  constructor
  · intro reads
    have stride : mmapEntrySize mem tag ≠ 0 := fun zero =>
      reads.divides BootInfo.cleared (parseTag_eq_none_iff.mpr ⟨isMmap, zero⟩)
    refine ⟨stride, ?_⟩
    rcases room_of_inside stride reads.inside with ⟨less, widest⟩ | room
    · have header : 12 ≤ tagSize mem tag := by
        by_contra short
        exact not_depends isMmap (Nat.lt_of_not_le short) widest reads
      exact Or.inl ⟨header, less, widest⟩
    · exact Or.inr room
  · rintro ⟨stride, fits⟩
    have header : 12 ≤ tagSize mem tag := by
      rcases fits with ⟨header, _⟩ | ⟨header, _⟩
      · exact header
      · omega
    have inside : ∀ field ∈ mmapReads mem tag (mmapEntries mem tag),
        field.Within tag (tag + tagSize mem tag) := by
      rcases fits with ⟨_, less, widest⟩ | ⟨whole, room⟩
      · rw [(mmapEntries_eq_zero_iff (by omega) stride).mpr ⟨less, widest⟩]
        exact fun field member => absurd member List.not_mem_nil
      · exact reads_inside whole stride room
    exact ⟨fun info none => stride (parseTag_eq_none_iff.mp none).2, inside,
      fun mem' info info' same start => parseTag_depends isMmap stride header inside same start⟩

/-! ## The whole walk -/

/-- From `tag` on the same tags are in two memories, and the MMAP tags among them, which are
all read inside, have the same bytes. -/
inductive SameMaps (mem mem' : Mem) : Nat → Prop
  | endTag {tag : Nat} (isEnd : tagType mem tag = tagTypeEnd)
      (isEnd' : tagType mem' tag = tagTypeEnd) : SameMaps mem mem' tag
  | tag {tag : Nat} (notEnd : tagType mem tag ≠ tagTypeEnd)
      (type : tagType mem' tag = tagType mem tag) (size : tagSize mem' tag = tagSize mem tag)
      (maps : tagType mem tag = tagTypeMmap →
        EntriesFit (tagSize mem tag) (mmapEntrySize mem tag) ∧
          (Field.mk tag (tagSize mem tag)).Same mem mem')
      (rest : SameMaps mem mem' (nextTag mem tag)) : SameMaps mem mem' tag

/-- A tag of another type does not change the available memory. -/
theorem parseTag_other {mem : Mem} {tag : Nat} {info : BootInfo}
    (other : tagType mem tag ≠ tagTypeMmap) :
    ∃ out, parseTag mem tag info = some out ∧
      out.availableMemoryBytes = info.availableMemoryBytes := by
  unfold parseTag
  rw [if_neg other]
  split
  · exact ⟨_, rfl, rfl⟩
  · split
    · exact ⟨_, rfl, rfl⟩
    · exact ⟨_, rfl, rfl⟩

theorem parseTag_same {mem mem' : Mem} {tag : Nat} {info info' : BootInfo}
    (type : tagType mem' tag = tagType mem tag)
    (maps : tagType mem tag = tagTypeMmap →
      EntriesFit (tagSize mem tag) (mmapEntrySize mem tag) ∧
        (Field.mk tag (tagSize mem tag)).Same mem mem')
    (start : info'.availableMemoryBytes = info.availableMemoryBytes) :
    ∃ out out', parseTag mem tag info = some out ∧ parseTag mem' tag info' = some out' ∧
      out'.availableMemoryBytes = out.availableMemoryBytes := by
  by_cases isMmap : tagType mem tag = tagTypeMmap
  · rcases maps isMmap with ⟨fits, same⟩
    have inside := (mmapInside_iff isMmap).mpr fits
    have depends := inside.depends mem' info info' same start
    rcases Option.ne_none_iff_exists'.mp (inside.divides info) with ⟨out, parsed⟩
    rw [parsed, Option.map_some] at depends
    rcases Option.map_eq_some_iff.mp depends with ⟨out', parsed', equal⟩
    exact ⟨out, out', parsed, parsed', equal⟩
  · rcases @parseTag_other mem tag info isMmap with ⟨out, parsed, kept⟩
    rcases @parseTag_other mem' tag info' (type ▸ isMmap) with ⟨out', parsed', kept'⟩
    exact ⟨out, out', parsed, parsed', kept'.trans (start.trans kept.symm)⟩

theorem SameMaps.tagLoop_eq {mem mem' : Mem} {tag : Nat} (maps : SameMaps mem mem' tag)
    (info info' : BootInfo) (start : info'.availableMemoryBytes = info.availableMemoryBytes) :
    ∃ fuel out out', tagLoop mem fuel tag info = some (.returned 0 (some out)) ∧
      tagLoop mem' fuel tag info' = some (.returned 0 (some out')) ∧
      out'.availableMemoryBytes = out.availableMemoryBytes := by
  induction maps generalizing info info' with
  | endTag isEnd isEnd' =>
      refine ⟨1, info, info', ?_, ?_, start⟩
      · rw [tagLoop, if_pos isEnd]
      · rw [tagLoop, if_pos isEnd']
  | @tag tag notEnd type size maps rest inductionHypothesis =>
      rcases parseTag_same type maps start with ⟨next, next', parsed, parsed', equal⟩
      rcases inductionHypothesis next next' equal with ⟨fuel, out, out', walked, walked', result⟩
      refine ⟨fuel + 1, out, out', ?_, ?_, result⟩
      · rw [tagLoop, if_neg notEnd, parsed]
        exact walked
      · have same : nextTag mem' tag = nextTag mem tag := by
          unfold nextTag
          rw [size]
        rw [tagLoop, if_neg (type ▸ notEnd), parsed']
        dsimp only
        rw [same]
        exact walked'

/-- An MMAP tag is read inside exactly for the sizes and strides that fit.  If this holds for
all MMAP tags of a walk, the available memory that `multiboot2_parse` reports depends on the
bytes of these tags alone. -/
theorem multiboot2Parse_readsInside (mem : Mem) :
    (∀ tag, tagType mem tag = tagTypeMmap →
      (MmapInside mem tag ↔ EntriesFit (tagSize mem tag) (mmapEntrySize mem tag))) ∧
    ∀ mem' mbiAddr info, SameMaps mem mem' (wrap64 (mbiAddr + 8)) →
      ∃ fuel out out',
        multiboot2Parse mem fuel bootloaderMagic mbiAddr (some info) =
          some (.returned 0 (some out)) ∧
        multiboot2Parse mem' fuel bootloaderMagic mbiAddr (some info) =
          some (.returned 0 (some out')) ∧
        out'.availableMemoryBytes = out.availableMemoryBytes := by
  refine ⟨fun tag isMmap => mmapInside_iff isMmap, fun mem' mbiAddr info maps => ?_⟩
  simp only [multiboot2Parse_eq]
  exact maps.tagLoop_eq BootInfo.cleared BootInfo.cleared rfl

/-- An MMAP tag of 16 bytes with a stride of 0, at address 8. -/
def zeroStrideTag : Mem := fun place => if place = 8 then 6 else if place = 12 then 16 else 0

/-- The parser divides by zero. -/
theorem not_mmapInside_zeroStride :
    tagType zeroStrideTag 8 = tagTypeMmap ∧ ¬ MmapInside zeroStrideTag 8 ∧
      multiboot2Parse zeroStrideTag 1 bootloaderMagic 0 (some BootInfo.cleared) =
        some .divideError := by
  have trap : parseTag zeroStrideTag 8 BootInfo.cleared = none := by decide +kernel
  exact ⟨by decide +kernel, fun inside => inside.divides BootInfo.cleared trap, by decide +kernel⟩

end Boot
end AuraKernel
