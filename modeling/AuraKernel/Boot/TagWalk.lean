import AuraKernel.Boot.Multiboot

namespace AuraKernel
namespace Boot

open Machine

/-!
# Termination of the tag walk

The loop ends exactly on the memories in which a sequence of tags starts behind
the header: tags whose padded size fits in 32 bits and is not zero, no memory
map with a stride of zero, and an end tag.  On all others it stays at one tag
for ever, runs on, or traps.
-/

/-- A sequence of tags in memory, up to an end tag. -/
inductive TagSequence (mem : Mem) : Nat → Prop
  | endTag {tag : Nat} (isEnd : tagType mem tag = tagTypeEnd) : TagSequence mem tag
  | tag {tag : Nat} (notEnd : tagType mem tag ≠ tagTypeEnd)
      (sized : 1 ≤ tagSize mem tag ∧ tagSize mem tag ≤ 2 ^ 32 - 8)
      (stride : tagType mem tag = tagTypeMmap → mmapEntrySize mem tag ≠ 0)
      (rest : TagSequence mem (wrap64 (tag + (tagSize mem tag + 7) / 8 * 8))) :
      TagSequence mem tag

section Walk

variable {mem : Mem} {tag : Nat}

/-- The code traps on a memory map with a stride of zero and on no other tag. -/
theorem parseTag_eq_none_iff {info : BootInfo} :
    parseTag mem tag info = none ↔ tagType mem tag = tagTypeMmap ∧ mmapEntrySize mem tag = 0 := by
  unfold parseTag
  by_cases meminfo : tagType mem tag = tagTypeBasicMeminfo
  · rw [if_pos meminfo, meminfo]
    exact iff_of_false (Option.some_ne_none _) fun holds => absurd holds.1 (by decide)
  rw [if_neg meminfo]
  by_cases mmap : tagType mem tag = tagTypeMmap
  · rw [if_pos mmap]
    by_cases zero : mmapEntrySize mem tag = 0
    · rw [if_pos zero]
      exact iff_of_true rfl ⟨mmap, zero⟩
    · rw [if_neg zero]
      exact iff_of_false (Option.some_ne_none _) fun holds => zero holds.2
  rw [if_neg mmap]
  refine iff_of_false ?_ fun holds => mmap holds.1
  by_cases framebuffer : tagType mem tag = tagTypeFramebuffer
  · rw [if_pos framebuffer]
    exact Option.some_ne_none _
  · rw [if_neg framebuffer]
    exact Option.some_ne_none _

/-- The address of the next tag of a sequence. -/
theorem nextTag_of_sized (sized : tagSize mem tag ≤ 2 ^ 32 - 8) :
    nextTag mem tag = wrap64 (tag + (tagSize mem tag + 7) / 8 * 8) := by
  unfold nextTag
  rw [tagAdvance_eq (by omega)]

/-- A walk that returns has followed a sequence of tags. -/
theorem tagSequence_of_returned {fuel : Nat} {info : BootInfo} {code : Int}
    {outInfo : Option BootInfo} (bound : tag < 2 ^ 64)
    (returned : tagLoop mem fuel tag info = some (.returned code outInfo)) :
    TagSequence mem tag := by
  induction fuel generalizing tag info with
  | zero => cases returned
  | succ fuel inductionHypothesis =>
      rw [tagLoop] at returned
      by_cases isEnd : tagType mem tag = tagTypeEnd
      · exact TagSequence.endTag isEnd
      rw [if_neg isEnd] at returned
      cases parsed : parseTag mem tag info with
      | none =>
          rw [parsed] at returned
          cases returned
      | some info' =>
          rw [parsed] at returned
          have rest : TagSequence mem (nextTag mem tag) :=
            inductionHypothesis (wrap64_lt _) returned
          have stride : tagType mem tag = tagTypeMmap → mmapEntrySize mem tag ≠ 0 := by
            intro mmap zero
            rw [parseTag_eq_none_iff.mpr ⟨mmap, zero⟩] at parsed
            cases parsed
          by_cases sized : 1 ≤ tagSize mem tag ∧ tagSize mem tag ≤ 2 ^ 32 - 8
          · exact TagSequence.tag isEnd sized stride (nextTag_of_sized sized.2 ▸ rest)
          · -- the next round was at the same tag
            rw [nextTag_of_stuck bound sized] at rest
            exact rest

/-- Along a sequence of tags the walk returns. -/
theorem TagSequence.returned (sequence : TagSequence mem tag) (info : BootInfo) :
    ∃ fuel outInfo, tagLoop mem fuel tag info = some (.returned 0 (some outInfo)) := by
  induction sequence generalizing info with
  | endTag isEnd =>
      refine ⟨1, info, ?_⟩
      rw [tagLoop, if_pos isEnd]
  | @tag tag notEnd sized stride rest inductionHypothesis =>
      cases parsed : parseTag mem tag info with
      | none =>
          rcases parseTag_eq_none_iff.mp parsed with ⟨mmap, zero⟩
          exact absurd zero (stride mmap)
      | some info' =>
          rcases inductionHypothesis info' with ⟨fuel, outInfo, returned⟩
          refine ⟨fuel + 1, outInfo, ?_⟩
          rw [tagLoop, if_neg notEnd, parsed]
          dsimp only
          rw [nextTag_of_sized sized.2]
          exact returned

end Walk

/-- `multiboot2_parse` with the right magic and a record to fill returns. -/
def Returns (mem : Mem) (mbiAddr : Nat) (info : BootInfo) : Prop :=
  ∃ fuel code outInfo, multiboot2Parse mem fuel bootloaderMagic mbiAddr (some info) =
    some (.returned code outInfo)

/-- An end tag at an 8-aligned offset behind the header. -/
def HasEndTag (mem : Mem) (mbiAddr : Nat) : Prop :=
  ∃ index, tagType mem (wrap64 (mbiAddr + 8) + 8 * index) = tagTypeEnd

theorem multiboot2Parse_eq (mem : Mem) (fuel mbiAddr : Nat) (info : BootInfo) :
    multiboot2Parse mem fuel bootloaderMagic mbiAddr (some info) =
      tagLoop mem fuel (wrap64 (mbiAddr + 8)) BootInfo.cleared := by
  unfold multiboot2Parse
  exact if_neg fun different => different rfl

/-- The parser returns exactly on a sequence of tags; a tag moves the walk
forward by a header or more exactly if its size is from 1 to `2 ^ 32 - 8`. -/
theorem multiboot2Parse_returns_iff (mem : Mem) (mbiAddr : Nat) (info : BootInfo) :
    (Returns mem mbiAddr info ↔ TagSequence mem (wrap64 (mbiAddr + 8))) ∧
      ∀ tag, 8 ≤ tagAdvance (tagSize mem tag) ↔
        1 ≤ tagSize mem tag ∧ tagSize mem tag ≤ 2 ^ 32 - 8 := by
  refine ⟨⟨?_, ?_⟩, fun tag => le_tagAdvance_iff (tagSize_lt mem tag)⟩
  · rintro ⟨fuel, code, outInfo, returned⟩
    rw [multiboot2Parse_eq] at returned
    exact tagSequence_of_returned (wrap64_lt _) returned
  · intro sequence
    rcases sequence.returned BootInfo.cleared with ⟨fuel, outInfo, returned⟩
    exact ⟨fuel, 0, some outInfo, (multiboot2Parse_eq _ _ _ _).trans returned⟩

/-- A tag of type 1 and size 0 with an end tag behind it. -/
def zeroSizedTag : Mem := fun place => if place = 8 then 1 else 0

/-- The walk never leaves a tag of size 0. -/
theorem not_returns_zeroSizedTag :
    HasEndTag zeroSizedTag 0 ∧ ¬ Returns zeroSizedTag 0 BootInfo.cleared := by
  refine ⟨⟨1, by decide +kernel⟩, ?_⟩
  rintro ⟨fuel, code, outInfo, returned⟩
  rw [multiboot2Parse_eq] at returned
  cases tagSequence_of_returned (by decide) returned with
  | endTag isEnd => exact absurd isEnd (by decide +kernel)
  | tag _ sized _ _ => exact absurd sized (by decide +kernel)

end Boot
end AuraKernel
