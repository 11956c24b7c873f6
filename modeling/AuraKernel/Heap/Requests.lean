import AuraKernel.Heap.Runs
import AuraKernel.Physical.FirstFit

namespace AuraKernel
namespace Heap

open Machine
open Physical

/-!
# Requests and failures

`kmalloc` rounds a request up, looks for a block, and if there is none grows the
heap by a number of pages and calls itself again.  All three computations are in
64-bit arithmetic without a check.  This module compares them with the numbers
they stand for.  For most requests they agree, and then `kmalloc` fails only if
it has to and without effect.  For the requests close to 2^64 the heap grows by
one page that is too small, over and over.
-/

/-- The request rounded up to a multiple of 8, without overflow. -/
def rounded (size : Nat) : Nat := (size + 7) / 8 * 8

/-- The pages for a block of the rounded size with its header, without overflow. -/
def pagesFor (size : Nat) : Nat := (rounded size + headerSize + (pageSize - 1)) / pageSize

/-- Some free block is large enough for the request, or there are free frames for it. -/
def Servable (s : HeapState) (layout : Layout) (size : Nat) : Prop :=
  (∃ b ∈ layout.nodes, rounded size ≤ Block.size s.mem b) ∨
    ∃ start, FreeRun s.phys (pagesFor size) start

/-- How often `kmallocLoop` calls `grow_heap`, with the same recursion. -/
def growCalls : Nat → Nat → HeapState → Option Nat
  | 0, _, _ => none
  | fuel + 1, size, s =>
      if size = 0 then some 0
      else do
        let size := alignUp size 8
        let cur ← searchLoop s.mem size wordSize s.freeHead
        if cur ≠ 0 then some 0
        else
          let (grown, s) := growHeap size s
          if grown then (growCalls fuel size s).map (· + 1) else some 1

/-- `kmalloc` fails only if the request cannot be served, it then leaves the heap
and the frames as they were, and it calls `grow_heap` at most once. -/
structure FailsCleanly (s : HeapState) (layout : Layout) (size : Nat) : Prop where
  returns : ∃ ptr s', kmalloc size s = some (ptr, s')
  once : ∃ calls, growCalls (s.phys.pmm.totalFrames + 1) size s = some calls ∧ calls ≤ 1
  needed : ∀ s', kmalloc size s = some (0, s') → ¬ Servable s layout size
  unchanged : ∀ s', kmalloc size s = some (0, s') → s' = s

/-- The requests that take frames in vain: the rounded size and its header, or
already the rounded size, do not fit in 64 bits, a frame is free, and no free
block is taken for the request. -/
structure TakesInVain (s : HeapState) (layout : Layout) (size : Nat) : Prop where
  frame : ∃ frame, frame < s.phys.pmm.totalFrames ∧ s.phys.Free frame
  large : 2 ^ 64 - headerSize < size
  search : size ≤ 2 ^ 64 - 8 ∨ layout.nodes = []

/-! ## The arithmetic of a request -/

theorem alignUp_eq_rounded {size : Nat} (small : size ≤ 2 ^ 64 - 8) :
    alignUp size 8 = rounded size := by
  rw [show (8 : Nat) = 2 ^ 3 from rfl, alignUp_eq (by decide), wrap64_of_lt (by omega)]
  rfl

theorem alignUp_eq_zero {size : Nat} (large : 2 ^ 64 - 8 < size) (bound : size < 2 ^ 64) :
    alignUp size 8 = 0 := by
  rw [show (8 : Nat) = 2 ^ 3 from rfl, alignUp_eq (by decide)]
  unfold wrap64
  omega

/-- As long as the block with its header fits in 64 bits, `grow_heap` asks for the right
number of pages, or for none if there cannot be so many. -/
theorem growPages_cases {size : Nat} (small : size ≤ 2 ^ 64 - headerSize) :
    growPages (alignUp size 8) = pagesFor size ∧
        alignUp size 8 + headerSize + pageSize ≤ 2 ^ 64 ∨
      growPages (alignUp size 8) = 0 ∧ 2 ^ 52 ≤ pagesFor size := by
  unfold headerSize at small
  rw [alignUp_eq_rounded (by omega)]
  unfold growPages pagesFor rounded headerSize pageSize wrap64
  omega

/-- Where the header no longer fits, one page is asked for. -/
theorem growPages_wrapped {size : Nat} (large : 2 ^ 64 - headerSize < size)
    (bound : size < 2 ^ 64) :
    growPages (alignUp size 8) = 1 ∧ 2 ^ 52 ≤ pagesFor size := by
  unfold headerSize at large
  by_cases fits : size ≤ 2 ^ 64 - 8
  · rw [alignUp_eq_rounded fits]
    unfold growPages pagesFor rounded headerSize pageSize wrap64
    omega
  · rw [alignUp_eq_zero (by omega) bound]
    unfold growPages pagesFor rounded headerSize pageSize wrap64
    omega

section Requests

variable {s s' : HeapState} {reserved : Set Nat} {layout after : Layout} {size : Nat}

theorem HeapInv.no_huge_run (inv : HeapInv s reserved layout) {pages : Nat}
    (huge : 2 ^ 52 ≤ pages) (start : Nat) : ¬ FreeRun s.phys pages start := by
  intro free
  have spaceLt := inv.space.space_lt
  have fits := free.1
  unfold pageSize at spaceLt
  omega

theorem not_servable (small : ∀ b ∈ layout.nodes, Block.size s.mem b < rounded size)
    (none : ∀ start, ¬ FreeRun s.phys (pagesFor size) start) : ¬ Servable s layout size := by
  rintro (⟨b, node, fits⟩ | ⟨start, free⟩)
  · exact absurd (small b node) (Nat.not_lt.mpr fits)
  · exact none start free

/-- No block is as large as the requests that wrap around. -/
theorem HeapInv.block_small (inv : HeapInv s reserved layout)
    (large : 2 ^ 64 - headerSize < size) :
    ∀ b ∈ layout.nodes, Block.size s.mem b < rounded size := by
  intro b node
  have sizeLe := inv.size_add_le (inv.freeList.subset b node)
  unfold headerSize pageSize rounded at *
  omega

theorem noRun_of_growPages {s : PhysState} {pages : Nat} (positive : pages ≠ 0)
    (none : pages = 0 ∨ ∀ lower, lower + pages ≤ s.pmm.totalFrames → ¬ Run s.Free pages lower)
    (start : Nat) : ¬ FreeRun s pages start :=
  fun free => (none.resolve_left positive) start free.1 free.2

theorem freeRun_one {s : PhysState} {frame : Nat} (bound : frame < s.pmm.totalFrames)
    (free : s.Free frame) : FreeRun s 1 frame := by
  refine ⟨bound, fun position low high => ?_⟩
  rw [show position = frame by omega]
  exact free

/-- The frames of a new region were a free run. -/
theorem Grows.freeRun {middle : HeapState} {between : Layout}
    (grows : Grows s middle reserved layout between size) (inv : HeapInv s reserved layout) :
    growPages size ≠ 0 ∧ ∃ start, FreeRun s.phys (growPages size) start := by
  rcases pmmAllocContiguous_cases inv.space.pmm (growPages size) with
    ⟨failed, _⟩ | ⟨start, positive, free, inside, _⟩
  · have grown := grows.grown
    rw [growHeap_eq, failed, if_pos rfl] at grown
    exact absurd (congrArg Prod.fst grown) Bool.false_ne_true
  · exact ⟨Nat.ne_of_gt positive, start, inside, free⟩

/-! ## One round -/

section Rounds

variable {fuel cur : Nat}

theorem growCalls_found (positive : size ≠ 0)
    (search : searchLoop s.mem (alignUp size 8) wordSize s.freeHead = some cur)
    (nonzero : cur ≠ 0) : growCalls (fuel + 1) size s = some 0 := by
  rw [growCalls, if_neg positive]
  simp only [search, Option.bind_eq_bind, Option.bind_some, if_pos nonzero]

theorem growCalls_refused (positive : size ≠ 0)
    (search : searchLoop s.mem (alignUp size 8) wordSize s.freeHead = some 0)
    (failed : growHeap (alignUp size 8) s = (false, s)) :
    growCalls (fuel + 1) size s = some 1 := by
  rw [growCalls, if_neg positive]
  simp only [search, Option.bind_eq_bind, Option.bind_some, ne_eq, not_true, if_false, failed,
    Bool.false_eq_true]

theorem growCalls_grown (positive : size ≠ 0)
    (search : searchLoop s.mem (alignUp size 8) wordSize s.freeHead = some 0)
    (grown : growHeap (alignUp size 8) s = (true, s')) :
    growCalls (fuel + 1) size s = (growCalls fuel (alignUp size 8) s').map (· + 1) := by
  rw [growCalls, if_neg positive]
  simp only [search, Option.bind_eq_bind, Option.bind_some, ne_eq, not_true, if_false, grown,
    if_true]

end Rounds

theorem HeapInv.kmalloc_found (inv : HeapInv s reserved layout) (positive : size ≠ 0) {cur : Nat}
    (member : cur ∈ layout.nodes)
    (search : searchLoop s.mem (alignUp size 8) wordSize s.freeHead = some cur) :
    cur ≠ 0 ∧ kmalloc size s = some (cur + headerSize, takeBlock cur (alignUp size 8) s) :=
  inv.kmallocLoop_member s.phys.pmm.totalFrames positive member search

/-- The heap grows by enough, so the retry finds a block. -/
theorem Grows.kmalloc {middle : HeapState} {between : Layout}
    (grows : Grows s middle reserved layout between (alignUp size 8)) (positive : size ≠ 0)
    (search : searchLoop s.mem (alignUp size 8) wordSize s.freeHead = some 0)
    (nonzero : alignUp size 8 ≠ 0) (small : alignUp size 8 + headerSize + pageSize ≤ 2 ^ 64) :
    ∃ cur s', Heap.kmalloc size s = some (cur + headerSize, s') ∧
      growCalls (s.phys.pmm.totalFrames + 1) size s = some 1 := by
  rcases grows.fuel with ⟨fuel, more⟩
  rcases grows.retry fuel nonzero small (dvd_alignUp size) with
    ⟨cur, _, curNe, searched, served⟩
  have returned := @kmallocLoop_grown s middle (fuel + 1) size positive search grows.grown
  have calls := @growCalls_grown s middle size (fuel + 1) positive search grows.grown
  rw [← alignUp_alignUp] at searched
  rw [served, ← more] at returned
  rw [growCalls_found nonzero searched curNe, ← more] at calls
  exact ⟨cur, _, returned, calls⟩

theorem not_null {cur : Nat} (returned : kmalloc size s = some (cur + headerSize, s')) :
    ∀ t, kmalloc size s ≠ some (0, t) := by
  intro t failed
  have result : cur + headerSize = 0 :=
    congrArg Prod.fst (Option.some.inj (returned.symm.trans failed))
  exact absurd result (Nat.ne_of_gt (Nat.add_pos_right cur (by decide)))

/-- What returns a pointer does not fail. -/
theorem failsCleanly_of_returned {cur calls : Nat}
    (returned : kmalloc size s = some (cur + headerSize, s'))
    (counted : growCalls (s.phys.pmm.totalFrames + 1) size s = some calls) (once : calls ≤ 1) :
    FailsCleanly s layout size :=
  ⟨⟨_, _, returned⟩, ⟨calls, counted, once⟩, fun t failed => absurd failed (not_null returned t),
    fun t failed => absurd failed (not_null returned t)⟩

/-- The heap cannot grow, and the request cannot be served. -/
theorem failsCleanly_refused (positive : size ≠ 0)
    (search : searchLoop s.mem (alignUp size 8) wordSize s.freeHead = some 0)
    (failed : growHeap (alignUp size 8) s = (false, s)) (refused : ¬ Servable s layout size) :
    FailsCleanly s layout size := by
  have returned := @kmallocLoop_refused s s.phys.pmm.totalFrames size positive search failed
  refine ⟨⟨_, _, returned⟩, ⟨1, growCalls_refused positive search failed, Nat.le_refl _⟩,
    fun _ _ => refused, fun s' same => ?_⟩
  exact (congrArg Prod.snd (Option.some.inj (returned.symm.trans same))).symm

/-! ## Requests that fit -/

theorem alignUp_pos (positive : size ≠ 0) (small : size ≤ 2 ^ 64 - headerSize) :
    alignUp size 8 = rounded size ∧ alignUp size 8 ≠ 0 := by
  have nearly : size ≤ 2 ^ 64 - 8 := by
    unfold headerSize at small
    omega
  rw [alignUp_eq_rounded nearly]
  refine ⟨rfl, ?_⟩
  unfold rounded
  omega

/-- If no block is large enough and the heap cannot grow, the request cannot be served. -/
theorem HeapInv.not_servable_of_refused (inv : HeapInv s reserved layout) (positive : size ≠ 0)
    (small : size ≤ 2 ^ 64 - headerSize)
    (tooSmall : ∀ b ∈ layout.nodes, Block.size s.mem b < alignUp size 8)
    (none : growPages (alignUp size 8) = 0 ∨
      ∀ lower, lower + growPages (alignUp size 8) ≤ s.phys.pmm.totalFrames →
        ¬ Run s.phys.Free (growPages (alignUp size 8)) lower) : ¬ Servable s layout size := by
  refine not_servable ((alignUp_pos positive small).1 ▸ tooSmall) ?_
  rcases growPages_cases small with ⟨pages, _⟩ | ⟨_, huge⟩
  · rw [pages] at none
    refine noRun_of_growPages ?_ none
    unfold pagesFor pageSize headerSize
    omega
  · exact inv.no_huge_run huge

theorem HeapInv.failsCleanly_of_le (inv : HeapInv s reserved layout) (positive : size ≠ 0)
    (small : size ≤ 2 ^ 64 - headerSize) : FailsCleanly s layout size := by
  cases inv.round (alignUp size 8) with
  | found cur member search fits =>
      rcases inv.kmalloc_found positive member search with ⟨nonzero, returned⟩
      exact failsCleanly_of_returned returned (growCalls_found positive search nonzero)
        (Nat.zero_le _)
  | refused tooSmall search failed none =>
      exact failsCleanly_refused positive search failed
        (inv.not_servable_of_refused positive small tooSmall none)
  | grown tooSmall search middle between grows =>
      rcases growPages_cases small with ⟨_, fits⟩ | ⟨noPages, _⟩
      · rcases grows.kmalloc positive search (alignUp_pos positive small).2 fits with
          ⟨cur, s', returned, calls⟩
        exact failsCleanly_of_returned returned calls (Nat.le_refl _)
      · exact absurd noPages (grows.freeRun inv).1

/-! ## Requests that wrap around -/

theorem HeapInv.not_servable_of_large (inv : HeapInv s reserved layout) (bound : size < 2 ^ 64)
    (large : 2 ^ 64 - headerSize < size) : ¬ Servable s layout size :=
  not_servable (inv.block_small large) (inv.no_huge_run (growPages_wrapped large bound).2)

/-- A heap that grows for a request that wraps around takes frames in vain. -/
theorem Grows.takesInVain {middle : HeapState} {between : Layout}
    (grows : Grows s middle reserved layout between (alignUp size 8))
    (inv : HeapInv s reserved layout) (bound : size < 2 ^ 64)
    (large : 2 ^ 64 - headerSize < size)
    (tooSmall : ∀ b ∈ layout.nodes, Block.size s.mem b < alignUp size 8) :
    TakesInVain s layout size := by
  have onePage := (growPages_wrapped large bound).1
  refine ⟨?_, large, ?_⟩
  · rcases (grows.freeRun inv).2 with ⟨start, inside, free⟩
    exact ⟨start, by omega, free start (Nat.le_refl _) (by omega)⟩
  · by_cases fits : size ≤ 2 ^ 64 - 8
    · exact Or.inl fits
    · rw [alignUp_eq_zero (by omega) bound] at tooSmall
      refine Or.inr (List.eq_nil_iff_forall_not_mem.mpr fun b node => ?_)
      exact absurd (tooSmall b node) (Nat.not_lt_zero _)

theorem HeapInv.failsCleanly_of_large (inv : HeapInv s reserved layout) (bound : size < 2 ^ 64)
    (large : 2 ^ 64 - headerSize < size) (saved : ¬ TakesInVain s layout size) :
    FailsCleanly s layout size := by
  have positive : size ≠ 0 := by
    unfold headerSize at large
    omega
  cases inv.round (alignUp size 8) with
  | found cur member search fits =>
      rcases inv.kmalloc_found positive member search with ⟨nonzero, returned⟩
      exact failsCleanly_of_returned returned (growCalls_found positive search nonzero)
        (Nat.zero_le _)
  | refused _ search failed _ =>
      exact failsCleanly_refused positive search failed (inv.not_servable_of_large bound large)
  | grown tooSmall _ middle between grows =>
      exact absurd (grows.takesInVain inv bound large tooSmall) saved

theorem HeapEffect.usedFrames_le {kept : Finset Nat} (effect : HeapEffect s s' layout after kept)
    (inv : HeapInv s reserved layout) (inv' : HeapInv s' reserved after) :
    s.phys.pmm.usedFrames ≤ s'.phys.pmm.usedFrames :=
  usedFrames_mono inv.space.pmm inv'.space.pmm effect.total_eq
    fun frame bound used => (effect.used_iff frame bound).mpr (Or.inl used)

/-- A request that takes a frame in vain returns NULL and keeps the frame. -/
theorem HeapInv.kmalloc_in_vain (inv : HeapInv s reserved layout) (bound : size < 2 ^ 64)
    (vain : TakesInVain s layout size) :
    ∃ s', kmalloc size s = some (0, s') ∧
      s.phys.pmm.usedFrames < s'.phys.pmm.usedFrames := by
  rcases vain with ⟨⟨frame, inside, free⟩, large, search⟩
  have positive : size ≠ 0 := by
    unfold headerSize at large
    omega
  have run := freeRun_one inside free
  rcases growPages_wrapped large bound with ⟨onePage, _⟩
  cases inv.round (alignUp size 8) with
  | found cur member _ fits =>
      have sizeLe := inv.size_add_le (inv.freeList.subset cur member)
      rcases search with fitsToo | empty
      · rw [alignUp_eq_rounded fitsToo] at fits
        exact absurd (inv.block_small large cur member) (Nat.not_lt.mpr fits)
      · rw [empty] at member
        exact absurd member (List.not_mem_nil)
  | refused _ _ _ none =>
      rw [onePage] at none
      exact absurd run (noRun_of_growPages (by decide) none frame)
  | grown _ search' middle between grows =>
      have less := grows.usedFrames_lt
      rcases grows.fuel with ⟨fuel, more⟩
      have again := @kmallocLoop_grown s middle s.phys.pmm.totalFrames size positive search'
        grows.grown
      have enough : middle.phys.pmm.totalFrames <
          s.phys.pmm.totalFrames + middle.phys.pmm.usedFrames := by
        rw [grows.effect.total_eq]
        omega
      rcases grows.inv.kmallocLoop_spec (alignUp size 8) enough with
        ⟨ptr, s', after, returned, allocates⟩
      have grownLe := allocates.effect.usedFrames_le grows.inv allocates.inv
      refine ⟨s', ?_, by omega⟩
      suffices null : ptr = 0 by
        rw [null] at returned
        exact again.trans returned
      by_cases fits : size ≤ 2 ^ 64 - 8
      · rcases allocates.result with ⟨null, _⟩ | ⟨b, _, _, live, roomy⟩
        · exact null
        · -- no block can be as large as what was asked for
          have member : b ∈ after.live s'.mem := by
            rw [live]
            exact Finset.mem_insert_self _ _
          have sizeLe := allocates.inv.size_add_le (mem_usedBlocks.mp member).1
          rw [alignUp_alignUp, alignUp_eq_rounded fits] at roomy
          unfold rounded headerSize pageSize at *
          omega
      · rw [alignUp_eq_zero (by omega) bound, more, kmallocLoop_zero] at returned
        exact (congrArg Prod.fst (Option.some.inj returned)).symm

/-- `kmalloc` fails cleanly on exactly the requests that do not take frames in vain. -/
theorem HeapInv.failsCleanly_iff (inv : HeapInv s reserved layout) (positive : size ≠ 0)
    (bound : size < 2 ^ 64) :
    FailsCleanly s layout size ↔ ¬ TakesInVain s layout size := by
  constructor
  · intro clean vain
    rcases inv.kmalloc_in_vain bound vain with ⟨s', failed, less⟩
    rw [clean.unchanged s' failed] at less
    exact absurd less (Nat.lt_irrefl _)
  · intro saved
    by_cases small : size ≤ 2 ^ 64 - headerSize
    · exact inv.failsCleanly_of_le positive small
    · exact inv.failsCleanly_of_large bound (Nat.lt_of_not_le small) saved

/-- In every session that a new heap can reach, `kmalloc` meets what is asked of
it for exactly the sizes that do not take frames in vain. -/
theorem reachable_failsCleanly_iff {session : Session} {phys : PhysState} {offset : Nat}
    (space : FrameSpace phys offset reserved)
    (reachable : Session.Reachable reserved offset phys session) (positive : 0 < size)
    (bound : size < 2 ^ 64) :
    ∃ layout, WellFormed session layout ∧
      (FailsCleanly session.heap layout size ↔ ¬ TakesInVain session.heap layout size) := by
  rcases reachable_inv space reachable with ⟨layout, inv⟩
  exact ⟨layout, inv.wellFormed, inv.heap.failsCleanly_iff (Nat.ne_of_gt positive) bound⟩

end Requests

/-- On the small machine there are free frames, so a request of 100 bytes fails cleanly
and one of 2^64 - 16 bytes does not. -/
theorem reachable_failsCleanly_iff_small :
    (∃ layout, WellFormed ⟨heapInit 0 smallMachine, ∅, ∅⟩ layout ∧
      (FailsCleanly (heapInit 0 smallMachine) layout 100 ↔
        ¬ TakesInVain (heapInit 0 smallMachine) layout 100)) ∧
      ∃ layout, WellFormed ⟨heapInit 0 smallMachine, ∅, ∅⟩ layout ∧
        (FailsCleanly (heapInit 0 smallMachine) layout (2 ^ 64 - 16) ↔
          ¬ TakesInVain (heapInit 0 smallMachine) layout (2 ^ 64 - 16)) := by
  exact ⟨reachable_failsCleanly_iff smallMachine_space Relation.ReflTransGen.refl
      (by decide) (by decide),
    reachable_failsCleanly_iff smallMachine_space Relation.ReflTransGen.refl
      (by decide) (by decide)⟩

/-- A request of 2^64 - 16 bytes returns NULL and leaves no frame of the small
machine free: it has grown the heap six times. -/
theorem not_failsCleanly_overflow :
    let s := heapInit 0 smallMachine
    (kmalloc (2 ^ 64 - 16) s).map (fun result => (result.1, result.2.phys.pmm.usedFrames)) =
        some (0, 8) ∧
      s.phys.pmm.usedFrames = 2 ∧
      growCalls (s.phys.pmm.totalFrames + 1) (2 ^ 64 - 16) s = some 7 ∧
      ∀ layout, ¬ FailsCleanly s layout (2 ^ 64 - 16) := by
  intro s
  have result : (kmalloc (2 ^ 64 - 16) s).map
      (fun result => (result.1, result.2.phys.pmm.usedFrames)) = some (0, 8) := by
    decide +kernel
  have before : s.phys.pmm.usedFrames = 2 := by decide +kernel
  refine ⟨result, before, by decide +kernel, fun layout clean => ?_⟩
  rcases Option.map_eq_some_iff.mp result with ⟨⟨ptr, s'⟩, returned, same⟩
  rcases Prod.mk.inj same with ⟨rfl, used⟩
  rw [clean.unchanged s' returned, before] at used
  exact absurd used (by decide)

end Heap
end AuraKernel
