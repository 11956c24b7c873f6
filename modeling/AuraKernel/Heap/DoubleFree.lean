import AuraKernel.Heap.Runs

namespace AuraKernel
namespace Heap

open Machine
open Physical

/-!
# Freeing twice

`kfree` takes a block for free when the mark in front of the pointer says so.
After the block has been merged into its left neighbour this mark is not part of
any header, but bytes inside the payload of a free block.  Only headers are
written while blocks are given back, so the mark stays what it was until the
memory is handed out again.
-/

/-- A session with the pointers that have been given back since its last allocation. -/
structure Release where
  session : Session
  freed : Finset Nat

namespace Release

/-- The release after `kfree` of a pointer that is held. -/
def free (r : Release) (ptr : Nat) : Release where
  session := r.session.after (.kfree ptr) 0 (kfree ptr r.session.heap)
  freed := insert ptr r.freed

/-- The steps between two allocations: pointers are given back, once or again, and callers
write into the payloads they still hold. -/
inductive Step (reserved : Set Nat) : Release → Release → Prop
  | free {r : Release} (ptr : Nat) (member : ptr ∈ r.session.held) : Step reserved r (r.free ptr)
  | again {r : Release} (ptr : Nat) (member : ptr ∈ r.freed) :
      Step reserved r
        { r with session := { r.session with heap := kfree ptr r.session.heap } }
  | quiet {r : Release} {next : Session} (quiet : Session.Quiet reserved r.session next) :
      Step reserved r { r with session := next }

end Release

/-- `kfree` does nothing where the mark says free. -/
theorem kfree_unused {s : HeapState} {h : Nat} (unused : Block.used s.mem h = 0) :
    kfree (h + headerSize) s = s := by
  have headerPos : 0 < headerSize := by decide
  have place : sub64 (h + headerSize) headerSize = h := by
    rw [sub64_of_le (by omega)]
    omega
  rw [kfree_eq, if_neg (by omega), place, if_pos unused]

/-! ## Runs without allocations -/

section Releases

variable {reserved : Set Nat} {layout : Layout}

/-- The invariant of a release: there is a stale header in front of each pointer given back. -/
structure ReleaseInv (r : Release) (reserved : Set Nat) (layout : Layout) : Prop where
  session : SessionInv r.session reserved layout
  stale : ∀ ptr ∈ r.freed, ∃ h, ptr = h + headerSize ∧ layout.Stale r.session.heap.mem h

/-- A pointer that was given back is not given back again. -/
theorem ReleaseInv.kfree_again {r : Release} (inv : ReleaseInv r reserved layout) {ptr : Nat}
    (member : ptr ∈ r.freed) : kfree ptr r.session.heap = r.session.heap := by
  rcases inv.stale ptr member with ⟨h, rfl, stale⟩
  exact kfree_unused stale.1

theorem ReleaseInv.free {r : Release} (inv : ReleaseInv r reserved layout) {ptr : Nat}
    (member : ptr ∈ r.session.held) : ∃ after, ReleaseInv (r.free ptr) reserved after := by
  rw [inv.session.held] at member
  rcases Layout.mem_pointers.mp member with ⟨blk, live, rfl⟩
  rcases inv.session.heap.kfree_spec live with ⟨after, frees⟩
  have session' := @SessionInv.performs reserved layout after r.session
    (.kfree (blk + headerSize)) 0 _ inv.session frees.performs
  refine ⟨after, session'.1, ?_⟩
  intro p inside
  rcases Finset.mem_insert.mp inside with rfl | old
  · exact ⟨blk, rfl, frees.stale_self⟩
  · rcases inv.stale p old with ⟨h, rfl, stale⟩
    exact ⟨h, rfl, frees.stale h stale⟩

theorem ReleaseInv.step {r r' : Release} (inv : ReleaseInv r reserved layout)
    (step : Release.Step reserved r r') : ∃ after, ReleaseInv r' reserved after := by
  cases step with
  | free ptr member => exact inv.free member
  | again ptr member =>
      rw [inv.kfree_again member]
      exact ⟨layout, inv⟩
  | quiet step =>
      rcases inv.session.quiet step with ⟨session', keeps⟩
      refine ⟨layout, session', fun p inside => ?_⟩
      rcases inv.stale p inside with ⟨h, rfl, stale⟩
      exact ⟨h, rfl, keeps.stale h stale⟩

/-- A whole run; what was given back stays in the list of freed pointers. -/
theorem ReleaseInv.run {r r' : Release} (inv : ReleaseInv r reserved layout)
    (run : Relation.ReflTransGen (Release.Step reserved) r r') :
    (∃ after, ReleaseInv r' reserved after) ∧ r.freed ⊆ r'.freed := by
  induction run with
  | refl => exact ⟨⟨layout, inv⟩, Finset.Subset.refl _⟩
  | tail _ step inductionHypothesis =>
      rcases inductionHypothesis with ⟨⟨middle, inv'⟩, subset⟩
      refine ⟨inv'.step step, subset.trans ?_⟩
      cases step with
      | free => exact Finset.subset_insert _ _
      | again => exact Finset.Subset.refl _
      | quiet => exact Finset.Subset.refl _

/-- After `kfree` of a held pointer in a session that a new heap can reach, and after any
further steps without an allocation, `kfree` of the same pointer changes nothing, and neither
does `kfree` of any other pointer given back since. -/
theorem reachable_doubleFree {phys : PhysState} {offset : Nat} {session : Session}
    (space : FrameSpace phys offset reserved)
    (reachable : Session.Reachable reserved offset phys session) {ptr : Nat}
    (member : ptr ∈ session.held) {later : Release}
    (run : Relation.ReflTransGen (Release.Step reserved) (Release.free ⟨session, ∅⟩ ptr) later) :
    kfree ptr later.session.heap = later.session.heap ∧
      ∀ q ∈ later.freed, kfree q later.session.heap = later.session.heap := by
  rcases reachable_inv space reachable with ⟨layout, inv⟩
  have start : ReleaseInv ⟨session, ∅⟩ reserved layout :=
    ⟨inv, fun q inside => absurd inside (Finset.notMem_empty q)⟩
  rcases start.free member with ⟨middle, freed⟩
  rcases freed.run run with ⟨⟨after, inv'⟩, subset⟩
  exact ⟨inv'.kfree_again (subset (Finset.mem_insert_self _ _)), fun q => inv'.kfree_again⟩

end Releases

/-- On the small machine the second of two blocks is given back, then the first one, which
absorbs it, and then the second one again. -/
theorem reachable_doubleFree_small :
    ∃ first second, Heap.kmalloc 100 (heapInit 0 smallMachine) = some (8240, first) ∧
      Heap.kmalloc 100 first = some (8392, second) ∧
      kfree 8392 (kfree 8240 (kfree 8392 second)) = kfree 8240 (kfree 8392 second) := by
  have result : ((Heap.kmalloc 100 (heapInit 0 smallMachine)).bind fun first =>
      (Heap.kmalloc 100 first.2).map fun second => (first.1, second.1)) = some (8240, 8392) := by
    decide +kernel
  rcases Option.bind_eq_some_iff.mp result with ⟨⟨p, first⟩, returned, rest⟩
  rcases Option.map_eq_some_iff.mp rest with ⟨⟨q, second⟩, returned', same⟩
  rcases Prod.mk.inj same with ⟨rfl, rfl⟩
  refine ⟨first, second, returned, returned', ?_⟩
  have reachable := (Relation.ReflTransGen.single (@Session.Step.call
    {frame | frame < reservedFrames (ramSize 32768) 4000} ⟨heapInit 0 smallMachine, ∅, ∅⟩
    (.kmalloc 100) _ first trivial returned)).tail
    (Session.Step.call (.kmalloc 100) _ second trivial returned')
  have held : 8392 ∈ ((Session.after ⟨heapInit 0 smallMachine, ∅, ∅⟩ (.kmalloc 100) 8240
      first).after (.kmalloc 100) 8392 second).held := by
    simp [Session.after, Call.handed]
  refine (reachable_doubleFree smallMachine_space reachable held
    (Relation.ReflTransGen.single (Release.Step.free 8240 ?_))).1
  simp [Release.free, Session.after, Call.handed]

end Heap
end AuraKernel
