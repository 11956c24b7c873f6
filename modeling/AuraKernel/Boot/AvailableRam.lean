import AuraKernel.Boot.Parsing
import AuraKernel.Physical.Handout

namespace AuraKernel
namespace Boot

open Machine
open Physical

/-!
# Available memory and the frame manager

`kernel_main` sizes the frame manager with one number from the boot
information and never looks at the memory map again.  The manager hands out
every frame behind the bitmap sooner or later, so it stays inside available
memory exactly if the memory map happens to cover all of these frames.
-/

/-- The tags that the walk from `start` meets. -/
inductive TagAt (mem : Mem) (start : Nat) : Nat → Prop
  | first : TagAt mem start start
  | next {tag : Nat} (before : TagAt mem start tag) (notEnd : tagType mem tag ≠ tagTypeEnd) :
      TagAt mem start (nextTag mem tag)

/-- The frame lies in an available entry of a memory map behind the header at `mbiAddr`. -/
def InAvailable (mem : Mem) (mbiAddr frame : Nat) : Prop :=
  ∃ tag, TagAt mem (wrap64 (mbiAddr + 8)) tag ∧ tagType mem tag = tagTypeMmap ∧
    ∃ i, i < mmapEntries mem tag ∧
      entryType mem (mmapEntry mem tag i) = memoryAvailable ∧
      entryAddr mem (mmapEntry mem tag i) ≤ frame * pageSize ∧
      (frame + 1) * pageSize ≤
        entryAddr mem (mmapEntry mem tag i) + entryLen mem (mmapEntry mem tag i)

/-- After boot, no run of the frame manager hands out a frame outside available memory. -/
def HandsOutAvailable (mem : Mem) (mbiAddr : Nat) (boot : PhysState) : Prop :=
  ∀ c, Custody.Reachable boot c →
    (∀ frame ∈ framesOf (pmmAllocFrame c.phys).1 1, InAvailable mem mbiAddr frame) ∧
      ∀ frameCount, ∀ frame ∈ framesOf (pmmAllocContiguous frameCount c.phys).1 frameCount,
        InAvailable mem mbiAddr frame

section Frames

variable {ramSize kernelEnd : Nat} {s : PhysState}

/-- What is handed out lies behind the reserved frames. -/
theorem handedOut_bounds (bound : ramSize < 2 ^ 64) (image : 0 < kernelEnd)
    (fits : ImageFits ramSize kernelEnd) {c : Custody}
    (reachable : Custody.Reachable (setupPmm ramSize kernelEnd s) c) :
    (∀ frame ∈ framesOf (pmmAllocFrame c.phys).1 1,
        reservedFrames ramSize kernelEnd ≤ frame ∧ frame < ramSize / pageSize) ∧
      ∀ frameCount, ∀ frame ∈ framesOf (pmmAllocContiguous frameCount c.phys).1 frameCount,
        reservedFrames ramSize kernelEnd ≤ frame ∧ frame < ramSize / pageSize := by
  have inv := reachable.inv bound image fits
  constructor
  · intro frame member
    rcases inv.space.allocFrame with
      ⟨failed, _⟩ | ⟨start, inMemory, _, notReserved, nonzero, address, _⟩
    · rw [failed, framesOf_zero] at member
      exact absurd member (Set.notMem_empty _)
    · rw [address, framesOf_address nonzero, Set.mem_Ico] at member
      have same : frame = start := by omega
      rw [inv.total_eq] at inMemory
      rw [same]
      exact ⟨Nat.not_lt.mp notReserved, inMemory⟩
  · intro frameCount frame member
    rcases inv.space.allocContiguous frameCount with
      failed | ⟨start, _, inMemory, nonzero, free, address, _⟩
    · rw [failed, framesOf_zero] at member
      exact absurd member (Set.notMem_empty _)
    · rw [address, framesOf_address nonzero, Set.mem_Ico] at member
      rw [inv.total_eq] at inMemory
      exact ⟨Nat.not_lt.mp (free frame member.1 member.2).2, by omega⟩

/-- One request for all frames behind the reserved ones is granted after boot. -/
theorem allocContiguous_boot (bound : ramSize < 2 ^ 64) (image : 0 < kernelEnd)
    (fits : ImageFits ramSize kernelEnd) {frame : Nat}
    (behind : reservedFrames ramSize kernelEnd ≤ frame) (inMemory : frame < ramSize / pageSize) :
    frame ∈ framesOf (pmmAllocContiguous (ramSize / pageSize - reservedFrames ramSize kernelEnd)
        (setupPmm ramSize kernelEnd s)).1
      (ramSize / pageSize - reservedFrames ramSize kernelEnd) := by
  have space := frameSpace_setupPmm s bound image fits
  rcases setupPmm_spec s bound kernelEnd with ⟨_, total, _, usedIff⟩
  rcases pmmAllocContiguous_cases space.pmm
      (ramSize / pageSize - reservedFrames ramSize kernelEnd) with
    ⟨_, none | refused⟩ | ⟨start, positive, free, inside, _, address, _⟩
  · omega
  · refine absurd ?_ (refused (reservedFrames ramSize kernelEnd) (by omega))
    intro other low high
    refine (PhysState.not_used_iff _ _).mp fun used => ?_
    have := (usedIff other (by omega)).mp used
    omega
  · rw [total] at inside
    have startBehind : reservedFrames ramSize kernelEnd ≤ start := by
      by_contra before
      exact (PhysState.not_free_iff _ _).mpr ((usedIff start (by omega)).mpr (by omega))
        (free start (Nat.le_refl _) (by omega))
    have nonzero : start ≠ 0 := space.frame_zero positive free (by rw [total]; exact inside)
    rw [address, framesOf_address nonzero, Set.mem_Ico]
    omega

end Frames

/-- The frame manager stays inside available memory exactly if every frame
between the reserved frames and the end of the memory is available. -/
theorem handsOutAvailable_iff_covered {mem : Mem} {mbiAddr ramSize kernelEnd : Nat} {s : PhysState}
    (bound : ramSize < 2 ^ 64) (image : 0 < kernelEnd) (fits : ImageFits ramSize kernelEnd) :
    HandsOutAvailable mem mbiAddr (setupPmm ramSize kernelEnd s) ↔
      ∀ frame, reservedFrames ramSize kernelEnd ≤ frame → frame < ramSize / pageSize →
        InAvailable mem mbiAddr frame := by
  constructor
  · intro handsOut frame behind inMemory
    exact (handsOut _ Custody.Reachable.boot).2 _ frame
      (allocContiguous_boot bound image fits behind inMemory)
  · intro covered c reachable
    rcases handedOut_bounds bound image fits reachable with ⟨single, run⟩
    constructor
    · intro frame member
      exact covered frame (single frame member).1 (single frame member).2
    · intro frameCount frame member
      exact covered frame (run frameCount frame member).1 (run frameCount frame member).2

/-! ## The memory size of the parser -/

theorem mmapLoop_total (mem : Mem) (tag count : Nat) (info : BootInfo) :
    (mmapLoop mem tag count info).totalMemoryBytes = info.totalMemoryBytes := by
  induction count with
  | zero => rfl
  | succ count inductionHypothesis =>
      rw [mmapLoop]
      split
      · exact inductionHypothesis
      · exact inductionHypothesis

theorem parseTag_total_lt {mem : Mem} {tag : Nat} {info next : BootInfo}
    (small : info.totalMemoryBytes < 2 ^ 64) (parsed : parseTag mem tag info = some next) :
    next.totalMemoryBytes < 2 ^ 64 := by
  unfold parseTag at parsed
  by_cases meminfo : tagType mem tag = tagTypeBasicMeminfo
  · rw [if_pos meminfo] at parsed
    rw [← Option.some.inj parsed]
    exact wrap64_lt _
  rw [if_neg meminfo] at parsed
  by_cases mmap : tagType mem tag = tagTypeMmap
  · rw [if_pos mmap] at parsed
    by_cases zero : mmapEntrySize mem tag = 0
    · rw [if_pos zero] at parsed
      cases parsed
    · rw [if_neg zero] at parsed
      cases parsed
      rw [mmapLoop_total]
      exact small
  rw [if_neg mmap] at parsed
  by_cases framebuffer : tagType mem tag = tagTypeFramebuffer
  · rw [if_pos framebuffer] at parsed
    cases parsed
    exact small
  · rw [if_neg framebuffer] at parsed
    cases parsed
    exact small

/-- The memory size that the parser reports is a 64-bit number. -/
theorem tagLoop_total_lt {mem : Mem} {fuel tag : Nat} {info outInfo : BootInfo} {code : Int}
    (small : info.totalMemoryBytes < 2 ^ 64)
    (returned : tagLoop mem fuel tag info = some (.returned code (some outInfo))) :
    outInfo.totalMemoryBytes < 2 ^ 64 := by
  induction fuel generalizing tag info with
  | zero => cases returned
  | succ fuel inductionHypothesis =>
      rw [tagLoop] at returned
      by_cases isEnd : tagType mem tag = tagTypeEnd
      · rw [if_pos isEnd] at returned
        cases returned
        exact small
      rw [if_neg isEnd] at returned
      cases parsed : parseTag mem tag info with
      | none =>
          rw [parsed] at returned
          cases returned
      | some next =>
          rw [parsed] at returned
          refine inductionHypothesis ?_ returned
          exact parseTag_total_lt small parsed

theorem multiboot2Parse_total_lt {mem : Mem} {fuel mbiAddr : Nat} {info outInfo : BootInfo}
    (returned : multiboot2Parse mem fuel bootloaderMagic mbiAddr (some info) =
      some (.returned 0 (some outInfo))) : outInfo.totalMemoryBytes < 2 ^ 64 := by
  rw [multiboot2Parse_eq] at returned
  exact tagLoop_total_lt (by decide) returned

/-! ## The boot of the kernel -/

/-- For every tag stream that the parser accepts: after `kernel_main` has set up
the frame manager, no run hands out a frame outside available memory, exactly if
every frame from the reserved ones up to the end of the detected memory lies in
an available entry of the memory map. -/
theorem handsOutAvailable_iff {mem : Mem} {fuel mbiAddr kernelEnd : Nat} {info outInfo : BootInfo}
    (s : PhysState)
    (returned : multiboot2Parse mem fuel bootloaderMagic mbiAddr (some info) =
      some (.returned 0 (some outInfo)))
    (image : 0 < kernelEnd) (fits : ImageFits (ramSize outInfo.totalMemoryBytes) kernelEnd) :
    HandsOutAvailable mem mbiAddr (kernelMainPmm outInfo.totalMemoryBytes kernelEnd s) ↔
      ∀ frame, reservedFrames (ramSize outInfo.totalMemoryBytes) kernelEnd ≤ frame →
        frame < ramSize outInfo.totalMemoryBytes / pageSize → InAvailable mem mbiAddr frame :=
  handsOutAvailable_iff_covered (ramSize_lt (multiboot2Parse_total_lt returned)) image fits

/-- A memory map of one available entry, from 1 MiB up to 32 MiB, and no
BASIC_MEMINFO tag, so that the kernel assumes 64 MiB. -/
def shortStream : Mem :=
  memoryAt 4104 (serialise
    [⟨.mmap 24 0 [⟨0x100000, 0x1f00000, memoryAvailable, [0, 0, 0, 0]⟩], []⟩])

theorem shortStream_tags {tag : Nat} (tagAt : TagAt shortStream 4104 tag) :
    tag = 4104 ∨ tag = 4144 := by
  induction tagAt with
  | first => exact Or.inl rfl
  | next _ notEnd inductionHypothesis =>
      rcases inductionHypothesis with rfl | rfl
      · exact Or.inr (by decide +kernel)
      · exact absurd (by decide +kernel) notEnd

/-- On it the frame at 48 MiB is not available, but it is handed out. -/
theorem not_handsOutAvailable_shortStream :
    multiboot2Parse shortStream 2 bootloaderMagic 4096 (some BootInfo.cleared) =
        some (.returned 0 (some { BootInfo.cleared with availableMemoryBytes := 0x1f00000 })) ∧
      TagAt shortStream 4104 4104 ∧ tagType shortStream 4104 = tagTypeMmap ∧
      ¬ HandsOutAvailable shortStream 4096
        (kernelMainPmm 0 0x200000 ⟨fun _ => 0, ⟨0, 0, 0, 0⟩⟩) := by
  refine ⟨by decide +kernel, TagAt.first, by decide +kernel, fun handsOut => ?_⟩
  have covered := (handsOutAvailable_iff_covered (by decide) (by decide)
    (imageFits_of_le (by decide) (by decide))).mp handsOut 0x3000 (by decide +kernel)
      (by decide +kernel)
  rcases covered with ⟨tag, tagAt, isMmap, i, bound, _, _, high⟩
  rcases shortStream_tags tagAt with rfl | rfl
  · have single : mmapEntries shortStream 4104 = 1 := by decide +kernel
    have first : i = 0 := by omega
    subst first
    exact absurd high (by decide +kernel)
  · exact absurd isMmap (by decide +kernel)

/-- On the small stream with 64 MiB every frame behind a kernel of 2 MiB is available. -/
theorem handsOutAvailable_iff_small :
    (∀ frame, reservedFrames (ramSize 0x4000000) 0x200000 ≤ frame →
      frame < ramSize 0x4000000 / pageSize →
        InAvailable (memoryAt 4104 (serialise smallStream)) 4096 frame) ∧
    HandsOutAvailable (memoryAt 4104 (serialise smallStream)) 4096
      (kernelMainPmm 0x4000000 0x200000 ⟨fun _ => 0, ⟨0, 0, 0, 0⟩⟩) := by
  have parsed : multiboot2Parse (memoryAt 4104 (serialise smallStream)) 5 bootloaderMagic 4096
      (some BootInfo.cleared) =
        some (.returned 0 (some ⟨0x4000000, 0x3f9fc00, 0xfd000000, 1024, 768, 4096, 32, 1⟩)) := by
    decide +kernel
  have covered : ∀ frame, reservedFrames (ramSize 0x4000000) 0x200000 ≤ frame →
      frame < ramSize 0x4000000 / pageSize →
        InAvailable (memoryAt 4104 (serialise smallStream)) 4096 frame := by
    intro frame behind inMemory
    have step : nextTag (memoryAt 4104 (serialise smallStream)) 4104 = 4120 ∧
        nextTag (memoryAt 4104 (serialise smallStream)) 4120 = 4136 := by decide +kernel
    have second := @TagAt.next (memoryAt 4104 (serialise smallStream)) 4104 4104 TagAt.first
      (by decide +kernel)
    rw [step.1] at second
    have third := TagAt.next second (by decide +kernel)
    rw [step.2] at third
    have reserved : reservedFrames (ramSize 0x4000000) 0x200000 = 513 := by decide +kernel
    have frames : ramSize 0x4000000 / pageSize = 16384 := by decide +kernel
    have start : entryAddr (memoryAt 4104 (serialise smallStream))
        (mmapEntry (memoryAt 4104 (serialise smallStream)) 4136 1) = 0x100000 := by decide +kernel
    have length : entryLen (memoryAt 4104 (serialise smallStream))
        (mmapEntry (memoryAt 4104 (serialise smallStream)) 4136 1) = 0x3f00000 := by decide +kernel
    refine ⟨4136, third, by decide +kernel, 1, by decide +kernel, by decide +kernel, ?_, ?_⟩
    · rw [start]
      unfold pageSize
      omega
    · rw [start, length]
      unfold pageSize
      omega
  exact ⟨covered, (handsOutAvailable_iff _ parsed (by decide)
    (imageFits_of_le (by decide) (by decide))).mpr covered⟩

end Boot
end AuraKernel
