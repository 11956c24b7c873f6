import Mathlib.Data.List.Basic

namespace AuraKernel
namespace Machine

/-!
# Intrusive doubly linked lists

The nodes are addresses, the links two functions on addresses, and 0 is the
null pointer.  `Linked next prev before current nodes` says that the pointer
`current` starts a list of exactly `nodes`, whose first node points back to
`before`.  The two edits the allocators make, pushing a node at the head and
unlinking any node, are described by what the new link functions are on the
nodes; how the links are stored does not matter.
-/

/-- The list that starts at `current` consists of `nodes`. -/
def Linked (next prev : Nat → Nat) : Nat → Nat → List Nat → Prop
  | _, current, [] => current = 0
  | before, current, node :: rest =>
      current = node ∧ node ≠ 0 ∧ prev node = before ∧ Linked next prev node (next node) rest

namespace Linked

variable {next prev next' prev' : Nat → Nat} {before current : Nat} {nodes : List Nat}

/-- A list depends on the links of its nodes only. -/
theorem congr (linked : Linked next prev before current nodes)
    (nextEq : ∀ node, node ∈ nodes → next' node = next node)
    (prevEq : ∀ node, node ∈ nodes → prev' node = prev node) :
    Linked next' prev' before current nodes := by
  induction nodes generalizing before current with
  | nil => exact linked
  | cons node rest inductionHypothesis =>
      rcases linked with ⟨starts, nonzero, back, tail⟩
      refine ⟨starts, nonzero, (prevEq node (by simp)).trans back, ?_⟩
      rw [nextEq node (by simp)]
      exact inductionHypothesis tail (fun other member => nextEq other (by simp [member]))
        (fun other member => prevEq other (by simp [member]))

theorem ne_zero (linked : Linked next prev before current nodes) {node : Nat}
    (member : node ∈ nodes) : node ≠ 0 := by
  induction nodes generalizing before current with
  | nil => cases member
  | cons first rest inductionHypothesis =>
      rcases linked with ⟨_, nonzero, _, tail⟩
      rcases List.mem_cons.mp member with rfl | later
      · exact nonzero
      · exact inductionHypothesis tail later

theorem current_mem (linked : Linked next prev before current nodes) (nonzero : current ≠ 0) :
    current ∈ nodes := by
  cases nodes with
  | nil => exact absurd linked nonzero
  | cons node rest => exact List.mem_cons.mpr (Or.inl linked.1)

theorem head_erase {before' current' other : Nat} (linked : Linked next prev before current nodes)
    (different : current ≠ other) (nonzero : current ≠ 0)
    (linked' : Linked next' prev' before' current' (nodes.erase other)) : current' = current := by
  cases nodes with
  | nil => exact absurd linked nonzero
  | cons node rest =>
      rcases linked with ⟨rfl, _⟩
      rw [List.erase_cons_tail (by simpa using different)] at linked'
      exact linked'.1

/-- The successor of a node ends the list or points back to it. -/
theorem next_cases (linked : Linked next prev before current nodes) {node : Nat}
    (member : node ∈ nodes) :
    next node = 0 ∨ next node ∈ nodes ∧ prev (next node) = node := by
  induction nodes generalizing before current with
  | nil => cases member
  | cons first rest inductionHypothesis =>
      rcases linked with ⟨_, _, _, tail⟩
      rcases List.mem_cons.mp member with rfl | later
      · cases rest with
        | nil => exact Or.inl tail
        | cons second rest =>
            rcases tail with ⟨starts, _, back, _⟩
            exact Or.inr ⟨by simp [starts], by rw [starts, back]⟩
      · rcases inductionHypothesis tail later with ended | ⟨inside, back⟩
        · exact Or.inl ended
        · exact Or.inr ⟨List.mem_cons_of_mem _ inside, back⟩

/-- The predecessor of a node is the pointer in front of the list or points to it. -/
theorem prev_cases (linked : Linked next prev before current nodes) {node : Nat}
    (member : node ∈ nodes) :
    (current = node ∧ prev node = before) ∨
      (prev node ∈ nodes ∧ next (prev node) = node) := by
  induction nodes generalizing before current with
  | nil => cases member
  | cons first rest inductionHypothesis =>
      rcases linked with ⟨starts, _, back, tail⟩
      rcases List.mem_cons.mp member with rfl | later
      · exact Or.inl ⟨starts, back⟩
      · rcases inductionHypothesis tail later with ⟨starts', back'⟩ | ⟨inside, forth⟩
        · exact Or.inr ⟨by rw [back']; simp, by rw [back', starts']⟩
        · exact Or.inr ⟨List.mem_cons_of_mem _ inside, forth⟩

/-- Inside a list without repetitions, only the first node points back to `before`. -/
theorem prev_eq_before_iff (linked : Linked next prev before current nodes)
    (fresh : before ∉ nodes) (distinct : nodes.Nodup) {node : Nat} (member : node ∈ nodes) :
    prev node = before ↔ current = node := by
  cases nodes with
  | nil => cases member
  | cons first rest =>
      rcases linked with ⟨starts, _, back, tail⟩
      rcases List.mem_cons.mp member with rfl | later
      · exact iff_of_true back starts
      · have different : first ≠ node := fun same =>
          (List.nodup_cons.mp distinct).1 (same ▸ later)
        refine iff_of_false ?_ (fun same => different (starts.symm.trans same))
        intro same
        rcases tail.prev_cases later with ⟨_, back'⟩ | ⟨inside, _⟩
        · exact fresh (by rw [← same, back']; simp)
        · exact fresh (same ▸ List.mem_cons_of_mem _ inside)

/-- A list without repetitions has no loop of length one. -/
theorem next_ne (linked : Linked next prev before current nodes) (distinct : nodes.Nodup)
    {node : Nat} (member : node ∈ nodes) : next node ≠ node := by
  induction nodes generalizing before current with
  | nil => cases member
  | cons first rest inductionHypothesis =>
      rcases linked with ⟨_, nonzero, _, tail⟩
      have distinctRest := (List.nodup_cons.mp distinct).2
      rcases List.mem_cons.mp member with rfl | later
      · intro loop
        have inside := tail.current_mem (by rw [loop]; exact nonzero)
        rw [loop] at inside
        exact (List.nodup_cons.mp distinct).1 inside
      · exact inductionHypothesis tail distinctRest later

theorem prev_ne (linked : Linked next prev before current nodes) (fresh : before ∉ nodes)
    (distinct : nodes.Nodup) {node : Nat} (member : node ∈ nodes) : prev node ≠ node := by
  intro loop
  rcases linked.prev_cases member with ⟨_, back⟩ | ⟨_, forth⟩
  · exact fresh (back.symm.trans loop ▸ member)
  · rw [loop] at forth
    exact linked.next_ne distinct member forth

/-! ## The two edits -/

theorem push (linked : Linked next prev 0 current nodes) (distinct : nodes.Nodup) {node : Nat}
    (nonzero : node ≠ 0) (forth : next' node = current) (back : prev' node = 0)
    (nextEq : ∀ other, other ∈ nodes → next' other = next other)
    (prevEq : ∀ other, other ∈ nodes →
      prev' other = if other = current then node else prev other) :
    Linked next' prev' 0 node (node :: nodes) := by
  refine ⟨rfl, nonzero, back, ?_⟩
  rw [forth]
  cases nodes with
  | nil => exact linked
  | cons first rest =>
      rcases linked with ⟨starts, firstNonzero, _, tail⟩
      refine ⟨starts, firstNonzero, ?_, ?_⟩
      · rw [prevEq first (by simp), if_pos starts.symm]
      · rw [nextEq first (by simp)]
        refine tail.congr (fun other member => nextEq other (by simp [member])) ?_
        intro other member
        have different : other ≠ current := by
          rintro rfl
          exact (List.nodup_cons.mp distinct).1 (starts ▸ member)
        rw [prevEq other (by simp [member]), if_neg different]

/-- Unlink `target`: its neighbours now point to each other.  The links of
`target` itself may have any value afterwards. -/
theorem unlink (linked : Linked next prev before current nodes) (fresh : before ∉ nodes)
    (distinct : nodes.Nodup) {target : Nat} (member : target ∈ nodes)
    (nextEq : ∀ other, other ∈ nodes → other ≠ target →
      next' other = if other = prev target then next target else next other)
    (prevEq : ∀ other, other ∈ nodes → other ≠ target →
      prev' other = if other = next target then prev target else prev other) :
    Linked next' prev' before (if current = target then next target else current)
      (nodes.erase target) := by
  induction nodes generalizing before current with
  | nil => cases member
  | cons node rest inductionHypothesis =>
      have whole := linked
      rcases linked with ⟨starts, nonzero, back, tail⟩
      have distinctRest := (List.nodup_cons.mp distinct).2
      have nodeFresh : node ∉ rest := (List.nodup_cons.mp distinct).1
      by_cases same : node = target
      · -- the head goes: its successor becomes the first node
        subst same
        rw [if_pos starts, List.erase_cons_head]
        have elsewhere : ∀ other, other ∈ rest → other ≠ node := by
          rintro other inside rfl
          exact nodeFresh inside
        cases rest with
        | nil => exact tail
        | cons second rest =>
            rcases tail with ⟨starts', nonzero', _, tail'⟩
            refine ⟨starts', nonzero', ?_, ?_⟩
            · rw [prevEq second (by simp) (elsewhere second (by simp)), if_pos starts'.symm, back]
            · have secondNe : second ≠ prev node := by
                rw [back]
                rintro rfl
                exact fresh (by simp)
              rw [nextEq second (by simp) (elsewhere second (by simp)), if_neg secondNe]
              refine tail'.congr ?_ ?_
              · intro other inside
                rw [nextEq other (by simp [inside]) (elsewhere other (by simp [inside])), if_neg]
                rw [back]
                rintro rfl
                exact fresh (by simp [inside])
              · intro other inside
                rw [prevEq other (by simp [inside]) (elsewhere other (by simp [inside])), if_neg]
                rw [starts']
                rintro rfl
                exact (List.nodup_cons.mp distinctRest).1 inside
      · have later : target ∈ rest := by
          rcases List.mem_cons.mp member with here | later
          · exact absurd here.symm same
          · exact later
        have currentNe : current ≠ target := fun here => same (starts.symm.trans here)
        have notAfter : node ≠ next target := by
          rcases tail.next_cases later with ended | ⟨inside, _⟩
          · rw [ended]
            exact nonzero
          · rintro here
            exact nodeFresh (here ▸ inside)
        rw [if_neg currentNe, List.erase_cons_tail (by simpa using same)]
        refine ⟨starts, nonzero, ?_, ?_⟩
        · rw [prevEq node (by simp) same, if_neg notAfter, back]
        · have forth : next' node = if next node = target then next target else next node := by
            rw [nextEq node (by simp) same]
            have points := tail.prev_eq_before_iff nodeFresh distinctRest later
            by_cases before' : node = prev target
            · rw [if_pos before', if_pos (points.mp before'.symm)]
            · rw [if_neg before', if_neg (fun here => before' (points.mpr here).symm)]
          rw [forth]
          exact inductionHypothesis tail nodeFresh distinctRest later
            (fun other inside different => nextEq other (by simp [inside]) different)
            (fun other inside different => prevEq other (by simp [inside]) different)

end Linked

/-! ## Singly linked lists -/

/-- The list that starts at `current` and is linked forwards only consists of `nodes`. -/
def Chain (next : Nat → Nat) : Nat → List Nat → Prop
  | current, [] => current = 0
  | current, node :: rest => current = node ∧ node ≠ 0 ∧ Chain next (next node) rest

namespace Chain

variable {next next' : Nat → Nat} {current : Nat} {nodes : List Nat}

/-- A list depends on the links of its nodes only. -/
theorem congr (chain : Chain next current nodes)
    (same : ∀ node, node ∈ nodes → next' node = next node) : Chain next' current nodes := by
  induction nodes generalizing current with
  | nil => exact chain
  | cons node rest inductionHypothesis =>
      rcases chain with ⟨starts, nonzero, tail⟩
      refine ⟨starts, nonzero, ?_⟩
      rw [same node (by simp)]
      exact inductionHypothesis tail fun other member => same other (by simp [member])

/-- The list is empty exactly when its pointer is null. -/
theorem current_eq_zero_iff (chain : Chain next current nodes) : current = 0 ↔ nodes = [] := by
  cases nodes with
  | nil => exact iff_of_true chain rfl
  | cons node rest => exact iff_of_false (chain.1 ▸ chain.2.1) (List.cons_ne_nil _ _)

end Chain

end Machine
end AuraKernel
