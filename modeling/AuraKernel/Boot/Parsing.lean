import AuraKernel.Boot.TagStream
import Mathlib.Data.List.Induction

namespace AuraKernel
namespace Boot

open Machine

/-!
# Parsing undoes serialisation

The walk stays in step with the serialiser, so the parser computes a fold over
the tags; the fold is the summary that the boot information is meant to be.
-/

/-! ## The summary of a list of tags -/

namespace Tag

/-- The upper memory of a BASIC_MEMINFO tag. -/
def memUpper? : Tag → Option Nat
  | basicMeminfo _ memUpper _ => some memUpper
  | _ => none

/-- The fields of a FRAMEBUFFER tag. -/
def framebuffer? : Tag → Option Framebuffer
  | framebuffer fb _ => some fb
  | _ => none

/-- The lengths of the available entries of an MMAP tag. -/
def availableLens : Tag → List Nat
  | mmap _ _ entries =>
      (entries.filter fun entry => entry.type = memoryAvailable).map MmapEntry.len
  | _ => []

end Tag

/-- The boot information of a list of tags: the last BASIC_MEMINFO tag, all
available entries, the last FRAMEBUFFER tag. -/
def summary (tags : List Tag) : BootInfo where
  totalMemoryBytes :=
    (tags.filterMap Tag.memUpper?).getLast?.elim 0 fun memUpper => (memUpper + 1024) * 1024
  availableMemoryBytes := (tags.flatMap Tag.availableLens).sum % 2 ^ 64
  fbAddr := (tags.filterMap Tag.framebuffer?).getLast?.elim 0 Framebuffer.addr
  fbWidth := (tags.filterMap Tag.framebuffer?).getLast?.elim 0 Framebuffer.width
  fbHeight := (tags.filterMap Tag.framebuffer?).getLast?.elim 0 Framebuffer.height
  fbPitch := (tags.filterMap Tag.framebuffer?).getLast?.elim 0 Framebuffer.pitch
  fbBpp := (tags.filterMap Tag.framebuffer?).getLast?.elim 0 Framebuffer.bpp
  hasFramebuffer := (tags.filterMap Tag.framebuffer?).getLast?.elim 0 fun _ => 1

/-- The entries of a memory map add up modulo `2 ^ 64`. -/
theorem foldl_add (entries : List MmapEntry) (info : BootInfo)
    (small : info.availableMemoryBytes < 2 ^ 64) :
    entries.foldl MmapEntry.add info =
      { info with
        availableMemoryBytes := (info.availableMemoryBytes +
          ((entries.filter fun entry => entry.type = memoryAvailable).map MmapEntry.len).sum) %
            2 ^ 64 } := by
  induction entries generalizing info with
  | nil =>
      simp only [List.foldl_nil, List.filter_nil, List.map_nil, List.sum_nil, Nat.add_zero]
      rw [Nat.mod_eq_of_lt small]
  | cons entry rest inductionHypothesis =>
      rw [List.foldl_cons]
      by_cases available : entry.type = memoryAvailable
      · have added : MmapEntry.add info entry = { info with
            availableMemoryBytes := wrap64 (info.availableMemoryBytes + entry.len) } :=
          if_pos available
        rw [added, inductionHypothesis _ (wrap64_lt _)]
        simp only [List.filter_cons, available, decide_true, if_true, List.map_cons, List.sum_cons,
          wrap64, Nat.mod_add_mod, Nat.add_assoc]
      · have skipped : MmapEntry.add info entry = info := if_neg available
        rw [skipped, inductionHypothesis _ small]
        simp only [List.filter_cons, available, decide_false, Bool.false_eq_true, if_false]

theorem summary_concat (tags : List Tag) (tag : Tag) :
    summary (tags ++ [tag]) = tag.apply (summary tags) := by
  unfold summary
  simp only [List.filterMap_append, List.flatMap_append, List.sum_append]
  cases tag with
  | basicMeminfo memLower memUpper extension =>
      simp [Tag.apply, Tag.memUpper?, Tag.framebuffer?, Tag.availableLens]
  | mmap entrySize entryVersion entries =>
      have small : (tags.flatMap Tag.availableLens).sum % 2 ^ 64 < 2 ^ 64 :=
        Nat.mod_lt _ (by decide)
      rw [Tag.apply, foldl_add _ _ small]
      simp [Tag.memUpper?, Tag.framebuffer?, Tag.availableLens]
  | framebuffer fb extension =>
      simp [Tag.apply, Tag.memUpper?, Tag.framebuffer?, Tag.availableLens]
  | other type payload =>
      simp [Tag.apply, Tag.memUpper?, Tag.framebuffer?, Tag.availableLens]

/-- The fold over the tags is their summary. -/
theorem foldl_apply_eq_summary (tags : List Tag) :
    tags.foldl Tag.apply BootInfo.cleared = summary tags := by
  induction tags using List.reverseRecOn with
  | nil => rfl
  | append_singleton tags tag inductionHypothesis =>
      rw [List.foldl_append, inductionHypothesis, summary_concat]
      rfl

/-! ## The walk -/

section Walk

variable {mem : Mem} {addr : Nat} {tags : List PaddedTag}

theorem PaddedTag.WellFormed.length_bytes {padded : PaddedTag} (wellFormed : padded.WellFormed) :
    padded.bytes.length = padded.tag.paddedSize := by
  have padding := wellFormed.padding_eq
  unfold Tag.size tagHeaderSize at padding
  unfold PaddedTag.bytes Tag.bytes
  simp only [List.length_append, length_littleEndian]
  omega

theorem length_serialise_pos (tags : List PaddedTag) : 0 < (serialise tags).length := by
  cases tags with
  | nil => exact (by decide : 0 < (serialise []).length)
  | cons padded rest =>
      unfold serialise PaddedTag.bytes Tag.bytes
      simp only [List.length_append, length_littleEndian]
      omega

/-- The walk over a laid-out list of tags folds over the list. -/
theorem tagLoop_eq (wellFormed : ∀ padded ∈ tags, padded.WellFormed)
    (holds : Holds mem addr (serialise tags)) (room : addr + (serialise tags).length ≤ 2 ^ 64)
    (info : BootInfo) :
    tagLoop mem (tags.length + 1) addr info =
      some (.returned 0 (some ((tags.map PaddedTag.tag).foldl Tag.apply info))) := by
  induction tags generalizing addr info with
  | nil =>
      rw [serialise, holds_append] at holds
      have isEnd : tagType mem addr = tagTypeEnd := holds.1.load32 (by decide)
      rw [List.length_nil, tagLoop, if_pos isEnd]
      rfl
  | cons padded rest inductionHypothesis =>
      have fits := wellFormed padded (List.mem_cons_self ..)
      have length := fits.length_bytes
      have behind := length_serialise_pos rest
      rw [serialise, holds_append, length] at holds
      rw [serialise, List.length_append, length] at room
      rcases holds with ⟨here, later⟩
      unfold PaddedTag.bytes at here
      have sizeLt : padded.tag.size + 7 < 2 ^ 32 + 7 := by
        have := fits.size_lt
        have := fits.padding_eq
        omega
      have paddedLt := fits.size_lt
      unfold Tag.paddedSize at paddedLt
      rcases parseTag_eq fits.fields (by omega) (holds_append.mp here).1 info with
        ⟨typeEq, sizeEq, parsed⟩
      have notEnd : tagType mem addr ≠ tagTypeEnd := by
        rw [typeEq]
        exact fits.fields.type_facts.2
      have next : nextTag mem addr = addr + padded.tag.paddedSize := by
        unfold nextTag
        rw [sizeEq, tagAdvance_eq (by omega)]
        exact wrap64_of_lt (by unfold Tag.paddedSize at room; omega)
      rw [List.length_cons, tagLoop, if_neg notEnd, parsed]
      dsimp only
      rw [next, inductionHypothesis (fun other member =>
        wellFormed other (List.mem_cons_of_mem _ member)) later (by omega)]
      rfl

/-- On a list of well-formed tags, laid out behind the header and ended by an
end tag, the parser returns 0 and the summary of the tags. -/
theorem multiboot2Parse_serialise {mbiAddr : Nat} {info : BootInfo}
    (wellFormed : ∀ padded ∈ tags, padded.WellFormed)
    (holds : Holds mem (mbiAddr + 8) (serialise tags))
    (room : mbiAddr + 8 + (serialise tags).length ≤ 2 ^ 64) :
    ∃ fuel, multiboot2Parse mem fuel bootloaderMagic mbiAddr (some info) =
      some (.returned 0 (some (summary (tags.map PaddedTag.tag)))) := by
  have behind := length_serialise_pos tags
  refine ⟨tags.length + 1, ?_⟩
  rw [multiboot2Parse_eq, wrap64_of_lt (by omega), tagLoop_eq wellFormed holds room,
    foldl_apply_eq_summary]

end Walk

/-! ## A small stream -/

/-- A framebuffer of 1024 by 768 pixels. -/
def smallFramebuffer : Framebuffer where
  addr := 0xfd000000
  pitch := 4096
  width := 1024
  height := 768
  bpp := 32
  type := 1
  reserved := 0

/-- A boot loader name of five letters, 64 MiB of memory with one hole in a map
of stride 32, and the framebuffer. -/
def smallStream : List PaddedTag :=
  [⟨.other 2 [71, 82, 85, 66, 50], [0, 0, 0]⟩,
    ⟨.basicMeminfo 640 64512 [], []⟩,
    ⟨.mmap 32 0 [⟨0, 0x9fc00, 1, List.replicate 12 0⟩,
      ⟨0x100000, 0x3f00000, 1, List.replicate 12 0⟩,
      ⟨0xa0000, 0x60000, 2, List.replicate 12 0⟩], []⟩,
    ⟨.framebuffer smallFramebuffer [], []⟩]

theorem smallStream_wellFormed : ∀ padded ∈ smallStream, padded.WellFormed := by
  intro padded member
  simp only [smallStream, List.mem_cons, List.not_mem_nil, or_false] at member
  rcases member with rfl | rfl | rfl | rfl
  · exact ⟨by simp only [Tag.FieldsFit]; decide, by decide, by decide⟩
  · exact ⟨by simp only [Tag.FieldsFit]; decide, by decide, by decide⟩
  · refine ⟨⟨by decide, by decide, ?_⟩, by decide, by decide⟩
    intro entry inMap
    simp only [List.mem_cons, List.not_mem_nil, or_false] at inMap
    rcases inMap with rfl | rfl | rfl
    all_goals exact ⟨by decide, by decide, by decide, by decide⟩
  · exact ⟨⟨by decide, by decide, by decide, by decide, by decide⟩, by decide, by decide⟩

theorem multiboot2Parse_serialise_small :
    ∃ fuel, multiboot2Parse (memoryAt 4104 (serialise smallStream)) fuel bootloaderMagic 4096
        (some BootInfo.cleared) =
      some (.returned 0 (some ⟨0x4000000, 0x3f9fc00, 0xfd000000, 1024, 768, 4096, 32, 1⟩)) :=
  multiboot2Parse_serialise smallStream_wellFormed (holds_memoryAt _ _) (by decide +kernel)

end Boot
end AuraKernel
