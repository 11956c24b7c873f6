import AuraKernel.Heap.Runs

namespace AuraKernel
namespace Heap

open Machine
open Physical

/-!
# Reallocation

`krealloc` copies between a block that is still in use and one that may just have
been cut out of a free neighbour, and then merges the old block with what is
free around it.  Whichever way it goes, the caller ends up with one pointer and
with the bytes it had.
-/

/-- What `krealloc(ptr, ..)` does to the payloads that are held if it returns `q`. -/
structure Resized (before after : Session) (ptr q : Nat) : Prop where
  copied : q ≠ 0 → ∀ i, i < min (payloadSize before.heap.mem ptr) (payloadSize after.heap.mem q) →
    after.heap.mem (q + i) = before.heap.mem (ptr + i)
  others : ∀ p ∈ before.held, p ≠ ptr → p ∈ after.held ∧
    payloadSize after.heap.mem p = payloadSize before.heap.mem p ∧
      ∀ place, p ≤ place → place < p + payloadSize before.heap.mem p →
        after.heap.mem place = before.heap.mem place
  failed : q = 0 → ptr ∈ after.held ∧
    payloadSize after.heap.mem ptr = payloadSize before.heap.mem ptr ∧
      ∀ place, ptr ≤ place → place < ptr + payloadSize before.heap.mem ptr →
        after.heap.mem place = before.heap.mem place
  one_live : q = ptr ∧ ptr ∈ after.held ∨
    q ≠ ptr ∧ q ∉ before.held ∧ (q ∈ after.held ↔ ptr ∉ after.held)

section Calls

variable {session : Session} {reserved : Set Nat} {layout : Layout} {ptr newSize : Nat}

/-- The outcome of `krealloc` in terms of pointers: it fails, it returns the old
pointer, or it returns a new one to a copy. -/
theorem SessionInv.krealloc_outcome (inv : SessionInv session reserved layout)
    (live : ptr ∈ session.held) (positive : newSize ≠ 0) {q : Nat} {heap : HeapState}
    (returned : krealloc ptr newSize session.heap = some (q, heap)) :
    q = 0 ∨ (q = ptr ∧ heap = session.heap) ∨
      (q ≠ ptr ∧ q ∉ session.held ∧ ∀ i, i < payloadSize session.heap.mem ptr →
        heap.mem (q + i) = session.heap.mem (ptr + i)) := by
  rw [inv.held] at live ⊢
  rcases Layout.mem_pointers.mp live with ⟨blk, blkLive, rfl⟩
  rcases inv.heap.krealloc_spec blkLive positive with ⟨q', heap', after, returned', _, _, moved, _⟩
  cases returned'.symm.trans returned
  rw [payloadSize_add]
  cases moved with
  | failed _ => exact Or.inl rfl
  | stayed same _ _ => exact Or.inr (Or.inl ⟨rfl, same⟩)
  | moved b fresh _ _ copied =>
      have notHeld : b + headerSize ∉ layout.pointers session.heap.mem := by
        rw [Layout.mem_pointers]
        rintro ⟨c, cLive, same⟩
        exact fresh (Nat.add_right_cancel same ▸ cLive)
      refine Or.inr (Or.inr ⟨?_, notHeld, copied⟩)
      intro same
      exact fresh (Nat.add_right_cancel same ▸ blkLive)

theorem SessionInv.zero_not_held (inv : SessionInv session reserved layout) :
    0 ∉ session.held := by
  rw [inv.held]
  exact Layout.zero_not_mem_pointers _

theorem SessionInv.resized (inv : SessionInv session reserved layout)
    (live : ptr ∈ session.held) (positive : newSize ≠ 0) :
    ∃ q heap after, Heap.krealloc ptr newSize session.heap = some (q, heap) ∧
      SessionInv (session.after (.krealloc ptr newSize) q heap) reserved after ∧
      Resized session (session.after (.krealloc ptr newSize) q heap) ptr q := by
  rcases inv.call (.krealloc ptr newSize) (Or.inr live) with
    ⟨q, heap, after, returned, inv', keeps⟩
  refine ⟨q, heap, after, returned, inv', ?_⟩
  have null : ptr ≠ 0 := fun same => inv.zero_not_held (same ▸ live)
  -- the pointers that are held afterwards
  have held : (session.after (.krealloc ptr newSize) q heap).held =
      if q = 0 then session.held else insert q (session.held.erase ptr) := by
    simp only [Session.after, Call.handed, if_neg positive]
  have outcome := inv.krealloc_outcome live positive returned
  constructor
  case copied =>
    intro nonzero i bound
    rcases outcome with failed | ⟨rfl, rfl⟩ | ⟨_, _, copied⟩
    · exact absurd failed nonzero
    · rfl
    · exact copied i (Nat.lt_of_lt_of_le bound (Nat.min_le_left _ _))
  case others =>
    intro p member different
    have still : p ∈ (session.after (.krealloc ptr newSize) q heap).held := by
      rw [held]
      by_cases failed : q = 0
      · rw [if_pos failed]
        exact member
      · rw [if_neg failed]
        exact Finset.mem_insert_of_mem (Finset.mem_erase.mpr ⟨different, member⟩)
    exact ⟨still, keeps p member still⟩
  case failed =>
    intro failed
    rw [if_pos failed] at held
    have still := held ▸ live
    exact ⟨still, keeps ptr live still⟩
  case one_live =>
    rw [held]
    rcases outcome with rfl | ⟨rfl, _⟩ | ⟨different, fresh, _⟩
    · rw [if_pos rfl]
      refine Or.inr ⟨Ne.symm null, inv.zero_not_held, ?_⟩
      exact iff_of_false inv.zero_not_held (fun gone => gone live)
    · rw [if_neg null]
      exact Or.inl ⟨rfl, Finset.mem_insert_self _ _⟩
    · by_cases failed : q = 0
      · rw [if_pos failed]
        exact Or.inr ⟨different, fresh, iff_of_false fresh (fun gone => gone live)⟩
      · rw [if_neg failed]
        refine Or.inr ⟨different, fresh, iff_of_true (Finset.mem_insert_self _ _) ?_⟩
        rw [Finset.mem_insert, Finset.mem_erase]
        rintro (same | ⟨other, _⟩)
        · exact different same.symm
        · exact other rfl

/-- In every session that a new heap can reach, `krealloc` of a pointer that is
held either returns a pointer to the old bytes or fails and leaves them alone;
all other payloads stay what they were, and one of the two pointers is in use. -/
theorem reachable_resized {phys : PhysState} {offset : Nat}
    (space : FrameSpace phys offset reserved)
    (reachable : Session.Reachable reserved offset phys session) (live : ptr ∈ session.held)
    (positive : 0 < newSize) :
    ∃ q heap layout, Heap.krealloc ptr newSize session.heap = some (q, heap) ∧
      WellFormed (session.after (.krealloc ptr newSize) q heap) layout ∧
      Resized session (session.after (.krealloc ptr newSize) q heap) ptr q := by
  rcases reachable_inv space reachable with ⟨layout, inv⟩
  rcases inv.resized live (Nat.ne_of_gt positive) with ⟨q, heap, after, returned, inv', resized⟩
  exact ⟨q, heap, after, returned, inv'.wellFormed, resized⟩

end Calls

/-- On the small machine a block of 100 bytes grows to 5000. -/
theorem reachable_resized_small :
    ∃ first q heap layout,
      Heap.kmalloc 100 (heapInit 0 smallMachine) = some (8240, first) ∧
      Heap.krealloc 8240 5000 first = some (q, heap) ∧
      WellFormed ((Session.after ⟨heapInit 0 smallMachine, ∅, ∅⟩ (.kmalloc 100) 8240 first).after
        (.krealloc 8240 5000) q heap) layout ∧
      Resized (Session.after ⟨heapInit 0 smallMachine, ∅, ∅⟩ (.kmalloc 100) 8240 first)
        ((Session.after ⟨heapInit 0 smallMachine, ∅, ∅⟩ (.kmalloc 100) 8240 first).after
          (.krealloc 8240 5000) q heap) 8240 q := by
  rcases smallMachine_kmalloc with ⟨heap, returned, _, reachable⟩
  rcases @reachable_resized _ _ _ 5000 _ _ smallMachine_space reachable
    (Finset.mem_insert_self _ _) (by decide) with ⟨q, heap', layout, returned', facts⟩
  exact ⟨heap, q, heap', layout, returned, returned', facts⟩

end Heap
end AuraKernel
