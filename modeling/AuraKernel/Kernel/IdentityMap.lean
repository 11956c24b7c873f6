import AuraKernel.Boot.AvailableRam
import AuraKernel.Heap.Calls
import AuraKernel.Kernel.Kernel
import AuraKernel.Paging.Vmm

namespace AuraKernel
namespace Kernel

open Machine
open Physical
open Heap
open Slab
open Paging
open Boot

/-!
# The identity map

The boot code maps the first gigabyte, and the kernel keeps running on this map.
The frame manager covers all of the memory that was detected, and `grow_heap`,
`zone_refill` and `vmm_map_page` access whatever frames it hands them.
-/

/-- The size of the identity map of `entry64.S`. -/
def identityMapSize : Nat := 2 ^ 30

/-- The calls that access frames of the manager through the identity map. -/
inductive Call where
  | kmalloc (size : Nat)
  | zalloc (size : Nat)
  | vmmMapPage (virt phys flags : Nat)
deriving DecidableEq, Repr

/-! ## The frames of a call -/

/-- The frames that `grow_heap` obtains. -/
def growFrames (minPayload : Nat) (s : HeapState) : Set Nat :=
  framesOf (pmmAllocContiguous (growPages minPayload) s.phys).1 (growPages minPayload)

/-- The frames that `kmalloc` obtains; the recursion is that of `kmallocLoop`. -/
def kmallocLoopFrames : Nat → Nat → HeapState → Set Nat
  | 0, _, _ => ∅
  | fuel + 1, size, s =>
      if size = 0 then ∅
      else if searchLoop s.mem (alignUp size 8) wordSize s.freeHead = some 0 then
        growFrames (alignUp size 8) s ∪
          (if (growHeap (alignUp size 8) s).1 then
            kmallocLoopFrames fuel (alignUp size 8) (growHeap (alignUp size 8) s).2
          else ∅)
      else ∅

/-- The frame that `pmm_alloc_frame` hands out. -/
def allocFrames (s : PhysState) : Set Nat := framesOf (pmmAllocFrame s).1 1

/-- The frame that `zalloc` obtains. -/
def zallocFrames (size : Nat) (s : SlabState) : Set Nat :=
  if size = 0 then ∅
  else
    match sizeToZoneIndex size with
    | none => ∅
    | some i => if (s.zones i).freeList = 0 then allocFrames s.phys else ∅

/-- The frame that one level of `vmm_map_page` obtains. -/
def tableFrames (table index : Nat) (s : PhysState) : Set Nat :=
  if entry s.mem table index &&& ptePresent = 0 then allocFrames s else ∅

/-- The frames that `vmm_map_page` obtains. -/
def mapFrames (pml4 virt : Nat) (s : PhysState) : Set Nat :=
  let pdpt := ensureTable pml4 (pml4Index virt) s
  let pd := ensureTable pdpt.1 (pdptIndex virt) pdpt.2
  tableFrames pml4 (pml4Index virt) s ∪ tableFrames pdpt.1 (pdptIndex virt) pdpt.2 ∪
    tableFrames pd.1 (pdIndex virt) pd.2

namespace Call

/-- The kernel after a call; `pml4` is the address in CR3. -/
def run (pml4 : Nat) : Call → KernelState → Option KernelState
  | kmalloc size, k => (Heap.kmalloc size k.heap).map fun result => k.withHeap result.2
  | zalloc size, k => some (k.withSlab (Slab.zalloc size k.slab).2)
  | vmmMapPage virt phys flags, k =>
      some (k.withPhys (Paging.vmmMapPage pml4 virt phys flags k.phys))

/-- The frames that a call obtains and accesses. -/
def frames (pml4 : Nat) : Call → KernelState → Set Nat
  | kmalloc size, k => kmallocLoopFrames (k.phys.pmm.totalFrames + 1) size k.heap
  | zalloc size, k => zallocFrames size k.slab
  | vmmMapPage virt _ _, k => mapFrames pml4 virt k.phys

end Call

/-- The states that calls can reach. -/
inductive CallsReach (pml4 : Nat) (boot : KernelState) : KernelState → Prop
  | boot : CallsReach pml4 boot boot
  | call {k k' : KernelState} (before : CallsReach pml4 boot k) (call : Call)
      (returns : call.run pml4 k = some k') : CallsReach pml4 boot k'

/-- In no run does a call obtain a frame outside the identity map. -/
def StaysMapped (pml4 : Nat) (boot : KernelState) : Prop :=
  ∀ k, CallsReach pml4 boot k → ∀ call : Call, ∀ frame ∈ call.frames pml4 k,
    (frame + 1) * pageSize ≤ identityMapSize

/-! ## The manager's bounds

They hold for any contents of the bitmap and of the memory. -/

section Bounds

variable {s : PhysState} {frame : Nat}

theorem scanWords_lt {count w : Nat} (found : scanWords s count w = some frame) :
    frame < s.pmm.totalFrames := by
  induction count generalizing w with
  | zero => cases found
  | succ count inductionHypothesis =>
      rw [scanWords] at found
      dsimp only at found
      split at found
      · split at found
        · rename_i inside
          cases found
          exact inside
        · exact inductionHypothesis found
      · exact inductionHypothesis found

theorem scanBits_lt {count i : Nat} (found : scanBits s count i = some frame) :
    frame < i + count := by
  induction count generalizing i with
  | zero => cases found
  | succ count inductionHypothesis =>
      rw [scanBits] at found
      split at found
      · cases found
        omega
      · have later := inductionHypothesis found
        omega

theorem selectFrame_lt (found : selectFrame s = some frame) : frame < s.pmm.totalFrames := by
  unfold selectFrame at found
  dsimp only at found
  split at found
  · rename_i first phase
    cases found
    exact scanWords_lt phase
  · split at found
    · rename_i second phase
      cases found
      exact scanWords_lt phase
    · have last := scanBits_lt found
      omega

theorem allocFrames_lt (member : frame ∈ allocFrames s) : frame < s.pmm.totalFrames := by
  unfold allocFrames framesOf pmmAllocFrame at member
  rcases member with ⟨nonzero, low, high⟩
  split at nonzero
  · exact absurd rfl nonzero
  · rename_i room
    rw [if_neg room] at low high
    cases selected : selectFrame s with
    | none =>
        rw [selected] at nonzero
        exact absurd rfl nonzero
    | some first =>
        have inside := selectFrame_lt selected
        rw [selected] at low high
        simp only [takeFrame] at low high
        rw [Nat.mul_div_cancel first (by decide : 0 < pageSize)] at low high
        omega

theorem contiguousFrames_lt {frameCount : Nat}
    (member : frame ∈ framesOf (pmmAllocContiguous frameCount s).1 frameCount) :
    frame < s.pmm.totalFrames := by
  unfold framesOf pmmAllocContiguous at member
  rcases member with ⟨nonzero, low, high⟩
  split at nonzero
  · exact absurd rfl nonzero
  · rename_i positive
    rw [if_neg positive] at low high
    have spec := @scanRun_all s frameCount positive
    cases found : scanRun s frameCount s.pmm.totalFrames 0 0 0 with
    | none =>
        rw [found] at nonzero
        exact absurd rfl nonzero
    | some start =>
        rw [found] at low high spec
        dsimp only at low high
        rw [Nat.mul_div_cancel start (by decide : 0 < pageSize)] at low high
        have inside := spec.2.1
        omega

end Bounds

/-! ## The size of the memory

No call changes the number of frames. -/

section Totals

theorem bitmapSetRange_total (start count : Nat) (s : PhysState) :
    (bitmapSetRange start count s).pmm = s.pmm := by
  induction count with
  | zero => rfl
  | succ count inductionHypothesis => exact inductionHypothesis

theorem pmmAllocFrame_total (s : PhysState) :
    (pmmAllocFrame s).2.pmm.totalFrames = s.pmm.totalFrames := by
  unfold pmmAllocFrame
  split
  · rfl
  · split <;> rfl

theorem pmmAllocContiguous_total (frameCount : Nat) (s : PhysState) :
    (pmmAllocContiguous frameCount s).2.pmm.totalFrames = s.pmm.totalFrames := by
  unfold pmmAllocContiguous
  split
  · rfl
  · split
    · dsimp only
      rw [bitmapSetRange_total]
    · rfl

theorem growHeap_total (minPayload : Nat) (s : HeapState) :
    (growHeap minPayload s).2.phys.pmm.totalFrames = s.phys.pmm.totalFrames := by
  rw [growHeap_eq]
  split
  · exact pmmAllocContiguous_total _ _
  · exact pmmAllocContiguous_total _ _

theorem freeListRemove_pmm (blk : Nat) (s : HeapState) :
    (freeListRemove blk s).phys.pmm = s.phys.pmm := by
  unfold freeListRemove
  dsimp only
  split <;> rfl

theorem takeBlock_pmm (cur size : Nat) (s : HeapState) :
    (takeBlock cur size s).phys.pmm = s.phys.pmm := by
  unfold takeBlock acquireBlock
  refine (freeListRemove_pmm _ _).trans ?_
  split <;> rfl

theorem kmallocLoop_total {fuel size ptr : Nat} {s s' : HeapState}
    (returned : kmallocLoop fuel size s = some (ptr, s')) :
    s'.phys.pmm.totalFrames = s.phys.pmm.totalFrames := by
  induction fuel generalizing size s with
  | zero => cases returned
  | succ fuel inductionHypothesis =>
      rw [kmallocLoop] at returned
      split at returned
      · cases returned
        rfl
      · dsimp only at returned
        cases found : searchLoop s.mem (alignUp size 8) wordSize s.freeHead with
        | none =>
            rw [found] at returned
            cases returned
        | some cur =>
            rw [found] at returned
            simp only [Option.bind_eq_bind, Option.bind_some] at returned
            split at returned
            · cases returned
              exact congrArg Pmm.totalFrames (takeBlock_pmm _ _ _)
            · have grown := growHeap_total (alignUp size 8) s
              split at returned
              · exact (inductionHypothesis returned).trans grown
              · cases returned
                exact grown

theorem zoneRefill_total (i : Fin 8) (s : SlabState) :
    (zoneRefill i s).phys.pmm.totalFrames = s.phys.pmm.totalFrames := by
  unfold zoneRefill
  dsimp only
  split
  · exact pmmAllocFrame_total _
  · exact pmmAllocFrame_total _

theorem zalloc_total (size : Nat) (s : SlabState) :
    (zalloc size s).2.phys.pmm.totalFrames = s.phys.pmm.totalFrames := by
  unfold zalloc
  split
  · rfl
  · split
    · rfl
    · split
      · dsimp only
        split
        · exact zoneRefill_total _ _
        · exact zoneRefill_total _ _
      · rfl

theorem ensureTable_total (table index : Nat) (s : PhysState) :
    (ensureTable table index s).2.pmm.totalFrames = s.pmm.totalFrames := by
  unfold ensureTable
  split
  · exact pmmAllocFrame_total s
  · rfl

theorem vmmMapPage_total (pml4 virt phys flags : Nat) (s : PhysState) :
    (vmmMapPage pml4 virt phys flags s).pmm.totalFrames = s.pmm.totalFrames :=
  ((ensureTable_total _ _ _).trans (ensureTable_total _ _ _)).trans (ensureTable_total _ _ _)

theorem Call.run_total {pml4 : Nat} {call : Call} {k k' : KernelState}
    (returns : call.run pml4 k = some k') :
    k'.phys.pmm.totalFrames = k.phys.pmm.totalFrames := by
  cases call with
  | kmalloc size =>
      rcases Option.map_eq_some_iff.mp returns with ⟨⟨ptr, heap⟩, returned, rfl⟩
      exact kmallocLoop_total returned
  | zalloc size =>
      cases returns
      exact zalloc_total size k.slab
  | vmmMapPage virt phys flags =>
      cases returns
      exact vmmMapPage_total _ _ _ _ _

theorem CallsReach.total {pml4 : Nat} {boot k : KernelState} (reach : CallsReach pml4 boot k) :
    k.phys.pmm.totalFrames = boot.phys.pmm.totalFrames := by
  induction reach with
  | boot => rfl
  | call _ _ returns inductionHypothesis => exact (Call.run_total returns).trans inductionHypothesis

end Totals

/-! ## All frames lie in memory -/

section Frames

variable {frame : Nat}

theorem kmallocLoopFrames_lt {fuel size : Nat} {s : HeapState}
    (member : frame ∈ kmallocLoopFrames fuel size s) : frame < s.phys.pmm.totalFrames := by
  induction fuel generalizing size s with
  | zero => exact absurd member (Set.notMem_empty _)
  | succ fuel inductionHypothesis =>
      rw [kmallocLoopFrames] at member
      split at member
      · exact absurd member (Set.notMem_empty _)
      · split at member
        · rcases member with grown | later
          · exact contiguousFrames_lt grown
          · split at later
            · have inside := inductionHypothesis later
              rw [growHeap_total] at inside
              exact inside
            · exact absurd later (Set.notMem_empty _)
        · exact absurd member (Set.notMem_empty _)

theorem tableFrames_lt {table index : Nat} {s : PhysState}
    (member : frame ∈ tableFrames table index s) : frame < s.pmm.totalFrames := by
  unfold tableFrames at member
  split at member
  · exact allocFrames_lt member
  · exact absurd member (Set.notMem_empty _)

theorem mapFrames_lt {pml4 virt : Nat} {s : PhysState} (member : frame ∈ mapFrames pml4 virt s) :
    frame < s.pmm.totalFrames := by
  rcases member with (first | second) | third
  · exact tableFrames_lt first
  · have inside := tableFrames_lt second
    rw [ensureTable_total] at inside
    exact inside
  · have inside := tableFrames_lt third
    rw [ensureTable_total, ensureTable_total] at inside
    exact inside

theorem zallocFrames_lt {size : Nat} {s : SlabState} (member : frame ∈ zallocFrames size s) :
    frame < s.phys.pmm.totalFrames := by
  unfold zallocFrames at member
  split at member
  · exact absurd member (Set.notMem_empty _)
  · split at member
    · exact absurd member (Set.notMem_empty _)
    · split at member
      · exact allocFrames_lt member
      · exact absurd member (Set.notMem_empty _)

theorem Call.frames_lt {pml4 : Nat} {call : Call} {k : KernelState}
    (member : frame ∈ call.frames pml4 k) : frame < k.phys.pmm.totalFrames := by
  cases call with
  | kmalloc size => exact kmallocLoopFrames_lt member
  | zalloc size => exact zallocFrames_lt member
  | vmmMapPage virt phys flags => exact mapFrames_lt member

end Frames

/-! ## The extent of the memory -/

section Extent

variable {totalMemoryBytes kernelEnd : Nat} {s : PhysState}

/-- The first request of a new heap obtains what `grow_heap` asks for. -/
theorem growFrames_subset_kmalloc {size fuel : Nat} {phys : PhysState} (nonzero : size ≠ 0) :
    growFrames (alignUp size 8) (heapInit 0 phys) ⊆
      kmallocLoopFrames (fuel + 1) size (heapInit 0 phys) := by
  have empty : searchLoop (heapInit 0 phys).mem (alignUp size 8) wordSize
      (heapInit 0 phys).freeHead = some 0 := by
    have word : wordSize = (2 ^ 64 - 1) + 1 := rfl
    rw [word, searchLoop]
    rfl
  rw [kmallocLoopFrames, if_neg nonzero, if_pos empty]
  exact Set.subset_union_left

/-- A request of one page less and eight bytes needs so many pages. -/
theorem growPages_request {pages : Nat} (positive : 0 < pages)
    (small : (pages + 1) * pageSize ≤ 2 ^ 64) :
    growPages (alignUp ((pages - 1) * pageSize + 8) 8) = pages := by
  have sizes : (pages + 1) * pageSize = (pages - 1) * pageSize + 2 * pageSize := by
    rw [← Nat.add_mul]
    congr 1
    omega
  have aligned : alignUp ((pages - 1) * pageSize + 8) 8 = (pages - 1) * pageSize + 8 := by
    have grain : (2 : Nat) ^ 3 = 8 := rfl
    unfold pageSize at *
    rw [← grain, alignUp_eq (by decide), wrap64_of_lt (by omega)]
    omega
  have need : wrap64 ((pages - 1) * pageSize + 8 + headerSize) =
      (pages - 1) * pageSize + 8 + headerSize := by
    unfold headerSize pageSize at *
    exact wrap64_of_lt (by omega)
  rw [aligned]
  unfold growPages
  rw [need]
  unfold headerSize pageSize at *
  rw [wrap64_of_lt (by omega)]
  omega

/-- After boot a single request can reach the last frame. -/
theorem last_frame_obtained (bound : totalMemoryBytes < 2 ^ 64) (image : 0 < kernelEnd)
    (fits : ImageFits (ramSize totalMemoryBytes) kernelEnd)
    (room : reservedFrames (ramSize totalMemoryBytes) kernelEnd <
      ramSize totalMemoryBytes / pageSize) (pml4 : Nat) :
    ∃ size, ramSize totalMemoryBytes / pageSize - 1 ∈
      (Call.kmalloc size).frames pml4 (kernelMain totalMemoryBytes kernelEnd s) := by
  have ramLt := ramSize_lt bound
  have covers := (reserved_cover fits).2
  have behind : 0 < reservedFrames (ramSize totalMemoryBytes) kernelEnd := by
    have placed := (reserved_cover fits).1
    unfold pageSize at covers
    omega
  refine ⟨(ramSize totalMemoryBytes / pageSize -
    reservedFrames (ramSize totalMemoryBytes) kernelEnd - 1) * pageSize + 8, ?_⟩
  refine growFrames_subset_kmalloc (by omega) ?_
  unfold growFrames
  rw [growPages_request (by omega) ?_]
  · exact allocContiguous_boot ramLt image fits (by omega) (by omega)
  · have whole : ramSize totalMemoryBytes / pageSize * pageSize ≤ ramSize totalMemoryBytes :=
      Nat.div_mul_le_self _ _
    have fewer : (ramSize totalMemoryBytes / pageSize -
        reservedFrames (ramSize totalMemoryBytes) kernelEnd + 1) * pageSize ≤
          ramSize totalMemoryBytes / pageSize * pageSize := Nat.mul_le_mul_right _ (by omega)
    omega

/-- With more memory than that a run leaves the identity map. -/
theorem mapped_of_stays (bound : totalMemoryBytes < 2 ^ 64) (image : 0 < kernelEnd)
    (fits : ImageFits (ramSize totalMemoryBytes) kernelEnd)
    (room : reservedFrames (ramSize totalMemoryBytes) kernelEnd <
      ramSize totalMemoryBytes / pageSize) {pml4 : Nat}
    (stays : StaysMapped pml4 (kernelMain totalMemoryBytes kernelEnd s)) :
    ramSize totalMemoryBytes / pageSize * pageSize ≤ identityMapSize := by
  rcases @last_frame_obtained totalMemoryBytes kernelEnd s bound image fits room pml4 with
    ⟨size, obtained⟩
  have inside := stays _ CallsReach.boot _ _ obtained
  have last : ramSize totalMemoryBytes / pageSize - 1 + 1 =
      ramSize totalMemoryBytes / pageSize := by
    omega
  rw [last] at inside
  exact inside

/-- On a machine with memory behind the kernel the three calls stay inside the
identity map exactly if the detected memory ends within it. -/
theorem staysMapped_iff (bound : totalMemoryBytes < 2 ^ 64) (image : 0 < kernelEnd)
    (fits : ImageFits (ramSize totalMemoryBytes) kernelEnd)
    (room : reservedFrames (ramSize totalMemoryBytes) kernelEnd <
      ramSize totalMemoryBytes / pageSize) (pml4 : Nat) :
    StaysMapped pml4 (kernelMain totalMemoryBytes kernelEnd s) ↔
      ramSize totalMemoryBytes / pageSize * pageSize ≤ identityMapSize := by
  constructor
  · exact mapped_of_stays bound image fits room
  · intro small k reach call frame member
    have inside := Call.frames_lt member
    have total : (kernelMain totalMemoryBytes kernelEnd s).phys.pmm.totalFrames =
        ramSize totalMemoryBytes / pageSize :=
      (setupPmm_spec s (ramSize_lt bound) kernelEnd).2.1
    rw [reach.total, total] at inside
    exact Nat.le_trans (Nat.mul_le_mul_right _ inside) small

/-- A machine with 64 MiB and a kernel of 2 MiB. -/
theorem staysMapped_iff_small :
    StaysMapped 0x105000 (kernelMain 0x4000000 0x200000 ⟨fun _ => 0, ⟨0, 0, 0, 0⟩⟩) :=
  (staysMapped_iff (by decide) (by decide) (imageFits_of_le (by decide) (by decide))
    (by decide +kernel) 0x105000).mpr (by decide +kernel)

/-- On a machine with 2 GiB a run leaves the identity map. -/
theorem not_staysMapped_twoGigabytes :
    ¬ StaysMapped 0x105000 (kernelMain 0x80000000 0x200000 ⟨fun _ => 0, ⟨0, 0, 0, 0⟩⟩) := by
  intro stays
  have mapped := mapped_of_stays (by decide) (by decide)
    (imageFits_of_le (by decide) (by decide)) (by decide +kernel) stays
  exact absurd mapped (by decide +kernel)

end Extent

end Kernel
end AuraKernel
