import AuraKernel.Heap.Runs

namespace AuraKernel
namespace Heap

open Machine
open Physical

/-!
# Coalescing is complete

In every session no two neighbouring blocks are free.  Once all allocations
have been given back, every region is therefore one free block again, and a
request that fits into a region is served from it.
-/

section Merging

variable {s : HeapState} {reserved : Set Nat} {layout : Layout} {session : Session}

/-- A request for which there is a large enough free block is served from the
regions the heap has. -/
theorem HeapInv.kmalloc_fits (inv : HeapInv s reserved layout) {size b : Nat} (positive : size ≠ 0)
    (node : b ∈ layout.nodes) (fits : alignUp size 8 ≤ Block.size s.mem b) :
    ∃ cur s' after, kmalloc size s = some (cur + headerSize, s') ∧ cur ∈ layout.nodes ∧
      HeapEffect s s' layout after (layout.live s.mem) ∧ after.regions = layout.regions := by
  rcases inv.kmallocLoop_fits s.phys.pmm.totalFrames positive node fits with
    ⟨cur, member, _, large, _, served⟩
  rcases inv.take member (dvd_alignUp size) large with ⟨after, _, effect, _, _, regions, _⟩
  exact ⟨cur, _, after, served, member, effect, regions⟩

/-- Without new regions no frame is taken. -/
theorem taken_eq_of_regions_eq {heap : HeapState} {after : Layout} {kept : Finset Nat}
    (effect : HeapEffect session.heap heap layout after kept)
    (regions : after.regions = layout.regions) (call : Call) (result : Nat) :
    (session.after call result heap).taken = session.taken := by
  have none : {frame | frame < session.heap.phys.pmm.totalFrames ∧
      session.heap.phys.Free frame ∧ heap.phys.Used frame} = (∅ : Set Nat) := by
    ext frame
    simp only [Set.mem_ofPred_eq, Set.mem_empty_iff_false, iff_false]
    rintro ⟨bound, free, used⟩
    rcases (effect.used_iff frame bound).mp used with before | ⟨inside, outside⟩
    · exact (PhysState.not_used_iff _ _).mpr free before
    · unfold Layout.frames at inside outside
      rw [regions] at inside
      exact outside inside
  unfold Session.after
  rw [none, Set.union_empty]

/-- What a heap without allocations looks like: one free block for each region,
and no request that fits into a region makes the heap grow. -/
structure FullyMerged (session : Session) (layout : Layout) : Prop where
  node_iff : ∀ b, b ∈ layout.nodes ↔ ∃ r ∈ layout.regions, b = r.start
  length_eq : layout.nodes.length = layout.regions.card
  size_eq : ∀ r ∈ layout.regions, ∃ pages, r.stop = r.start + pages * pageSize ∧
    Block.size session.heap.mem r.start = pages * pageSize - headerSize
  used_eq : heapGetUsed session.heap = 0
  serves : ∀ size, 0 < size → (∃ r ∈ layout.regions, size + headerSize ≤ r.stop - r.start) →
    ∃ ptr heap, (Call.kmalloc size).run session.heap = some (ptr, heap) ∧ ptr ≠ 0 ∧
      (session.after (.kmalloc size) ptr heap).taken = session.taken

/-- In a merged heap without blocks in use, a block is a whole region. -/
theorem HeapInv.block_whole (inv : HeapInv s reserved layout) (merged : layout.Merged s.mem)
    (allFree : ∀ b ∈ layout.blocks, Block.used s.mem b = 0) {b : Nat} (member : b ∈ layout.blocks) :
    ∃ r ∈ layout.regions, b = r.start ∧ b + headerSize + Block.size s.mem b = r.stop := by
  have last : ∀ c ∈ layout.blocks, (tagOf s.mem c).next = 0 := by
    intro c inside
    by_contra nonzero
    exact merged c inside
      ⟨allFree c inside, nonzero, allFree _ (inv.tiling.next_mem c inside nonzero)⟩
  have first : (tagOf s.mem b).prev = 0 := by
    rcases inv.tiling.prev_cases b member with none | ⟨prevMem, forth⟩
    · exact none
    · rw [last _ prevMem] at forth
      exact absurd forth.symm (inv.tiling.nonzero b member)
  rcases inv.tiling.region b member with ⟨r, rMem, _, _, startIff, stopIff⟩
  exact ⟨r, rMem, startIff.mp first, stopIff.mp (last b member)⟩

theorem SessionInv.fullyMerged (inv : SessionInv session reserved layout)
    (nothing : session.held = ∅) : FullyMerged session layout := by
  have wellFormed := inv.wellFormed
  rcases inv with ⟨heapInv, held, taken, merged⟩
  have noneLive : layout.live session.heap.mem = ∅ := by
    rw [nothing] at held
    exact Finset.image_eq_empty.mp held.symm
  have allFree : ∀ b ∈ layout.blocks, Block.used session.heap.mem b = 0 := by
    intro b member
    by_contra used
    have live : b ∈ layout.live session.heap.mem := mem_usedBlocks.mpr ⟨member, used⟩
    rw [noneLive] at live
    exact absurd live (Finset.notMem_empty b)
  have whole := fun b => @HeapInv.block_whole session.heap reserved layout heapInv merged allFree b
  have node_iff : ∀ b, b ∈ layout.nodes ↔ ∃ r ∈ layout.regions, b = r.start := by
    intro b
    rw [heapInv.free_iff]
    constructor
    · rintro ⟨member, _⟩
      rcases whole b member with ⟨r, rMem, start, _⟩
      exact ⟨r, rMem, start⟩
    · rintro ⟨r, rMem, rfl⟩
      have member := (heapInv.tiling.starts r rMem).2
      exact ⟨member, allFree _ member⟩
  have regionSize : ∀ r ∈ layout.regions,
      r.start + headerSize + Block.size session.heap.mem r.start = r.stop := by
    intro r rMem
    rcases heapInv.tiling.starts r rMem with ⟨nonempty, member⟩
    rcases whole r.start member with ⟨t, tMem, start, stop⟩
    have tNonempty := (heapInv.tiling.starts t tMem).1
    have same : r = t := heapInv.tiling.region_unique rMem tMem
      ⟨Nat.le_refl _, nonempty⟩ ⟨Nat.le_of_eq start.symm, by omega⟩
    rw [stop, same]
  constructor
  case node_iff => exact node_iff
  case length_eq =>
    have starts : layout.nodes.toFinset = layout.regions.image Region.start := by
      ext b
      rw [List.mem_toFinset, node_iff, Finset.mem_image]
      exact exists_congr fun r => and_congr_right fun _ => eq_comm
    have injective : Set.InjOn Region.start (layout.regions : Set Region) := by
      intro r rMem t tMem same
      have rSize := heapInv.tiling.starts r rMem
      have tSize := heapInv.tiling.starts t tMem
      exact heapInv.tiling.region_unique rMem tMem ⟨Nat.le_refl _, rSize.1⟩
        ⟨Nat.le_of_eq same.symm, by omega⟩
    rw [← List.toFinset_card_of_nodup heapInv.freeList.distinct, starts,
      Finset.card_image_of_injOn injective]
  case size_eq =>
    intro r rMem
    have size := regionSize r rMem
    rcases heapInv.runs r rMem with ⟨first, count, rfl, _⟩
    simp only [frameRegion, Nat.add_mul] at size ⊢
    exact ⟨count, by omega, by omega⟩
  case used_eq =>
    rw [wellFormed.used_eq, nothing]
    rfl
  case serves =>
    rintro size positive ⟨r, rMem, fits⟩
    have start := regionSize r rMem
    have member := (heapInv.tiling.starts r rMem).2
    have grain : 8 ∣ Block.size session.heap.mem r.start := heapInv.tiling.grain_dvd r.start member
    have startLt := heapInv.block_lt member
    have headerPos : 0 < headerSize := by decide
    have rounded : alignUp size 8 ≤ Block.size session.heap.mem r.start := by
      rw [show (8 : Nat) = 2 ^ 3 from rfl, alignUp_eq (by decide)]
      unfold headerSize at *
      rw [wrap64_of_lt (by omega)]
      omega
    rcases heapInv.kmalloc_fits
      (Nat.ne_of_gt positive) ((node_iff r.start).mpr ⟨r, rMem, rfl⟩) rounded with
      ⟨cur, heap, after, returned, _, effect, regions⟩
    exact ⟨_, heap, returned, by omega, taken_eq_of_regions_eq effect regions _ _⟩

/-- In every session a new heap can reach, no two neighbouring blocks of a
region are free; when nothing is held, every region is one free block. -/
theorem reachable_coalesced {phys : PhysState} {offset : Nat}
    (space : FrameSpace phys offset reserved)
    (reachable : Session.Reachable reserved offset phys session) :
    ∃ layout, WellFormed session layout ∧
      (∀ b ∈ layout.blocks, Block.used session.heap.mem b = 0 →
        Block.next session.heap.mem b ≠ 0 →
          Block.used session.heap.mem (Block.next session.heap.mem b) ≠ 0) ∧
      (session.held = ∅ → FullyMerged session layout) := by
  rcases reachable_inv space reachable with ⟨layout, inv⟩
  exact ⟨layout, inv.wellFormed,
    fun b member free nonzero nextFree => inv.merged b member ⟨free, nonzero, nextFree⟩,
    fun nothing => inv.fullyMerged nothing⟩

/-- The session of the small machine after a block was handed out and given back. -/
theorem reachable_coalesced_small :
    ∃ session layout, session.held = ∅ ∧ session.taken.Nonempty ∧ FullyMerged session layout := by
  have first : ((Call.kmalloc 100).run (heapInit 0 smallMachine)).map
      (fun result => (result.1, result.2.phys.bitmapTest 2)) = some (8240, true) := by
    decide +kernel
  rcases Option.map_eq_some_iff.mp first with ⟨⟨ptr, heap⟩, returned, same⟩
  rcases Prod.mk.inj same with ⟨isPtr, used⟩
  subst isPtr
  have allocated := Relation.ReflTransGen.single (@Session.Step.call
    {frame | frame < reservedFrames (ramSize 32768) 4000} ⟨heapInit 0 smallMachine, ∅, ∅⟩
    (.kmalloc 100) 8240 heap trivial returned)
  have freed := allocated.tail (Session.Step.call (.kfree 8240) 0 _
    (Or.inr (by simp [Session.after, Call.handed])) rfl)
  rcases reachable_coalesced smallMachine_space freed with ⟨layout, _, _, whole⟩
  refine ⟨_, layout, ?_, ⟨2, ?_⟩, whole ?_⟩
  · simp [Session.after, Call.handed]
  · exact Or.inl (Or.inr ⟨by decide +kernel, by decide +kernel, used⟩)
  · simp [Session.after, Call.handed]

end Merging

end Heap
end AuraKernel
