import Mathlib.Data.List.Induction
import Mathlib.Data.Option.Basic

namespace AuraKernel
namespace Machine

/-!
# Radix trees of tables

A table has a child behind some of its indices, and which one may depend on the
depth of the table.  A path is the list of indices from the root on.  In a tree
no table is reached by two paths; then an edit of one slot of one table is seen
by exactly the paths through that slot.  The edit that matters is the graft: an
empty slot gets a fresh table without children.
-/

/-- `child depth table index` is the table behind an index, if there is one. -/
abbrev ChildOf : Type := Nat → Nat → Nat → Option Nat

/-- The table at the end of a path that starts at a table of some depth. -/
def descend (child : ChildOf) : Nat → Nat → List Nat → Option Nat
  | _, table, [] => some table
  | depth, table, index :: rest =>
      (child depth table index).bind fun next => descend child (depth + 1) next rest

/-- No table is reached by two paths. -/
def UniquePaths (child : ChildOf) (root : Nat) : Prop :=
  ∀ p q table, descend child 0 root p = some table → descend child 0 root q = some table → p = q

section Paths

variable {child child' : ChildOf} {root : Nat}

@[simp] theorem descend_nil (depth table : Nat) : descend child depth table [] = some table := rfl

theorem descend_cons (depth table index : Nat) (rest : List Nat) :
    descend child depth table (index :: rest) =
      (child depth table index).bind fun next => descend child (depth + 1) next rest := rfl

theorem descend_concat (depth table index : Nat) (path : List Nat) :
    descend child depth table (path ++ [index]) =
      (descend child depth table path).bind fun last => child (depth + path.length) last index := by
  induction path generalizing depth table with
  | nil =>
      simp only [List.nil_append, descend_cons, descend_nil, List.length_nil, Nat.add_zero,
        Option.bind_some]
      exact Option.bind_fun_some _
  | cons first rest inductionHypothesis =>
      rw [List.cons_append, descend_cons, descend_cons, Option.bind_assoc]
      refine congrArg _ (funext fun next => ?_)
      rw [inductionHypothesis, List.length_cons, Nat.add_right_comm, Nat.add_assoc]

theorem descend_concat_eq_some {path : List Nat} {index table : Nat} :
    descend child 0 root (path ++ [index]) = some table ↔
      ∃ last, descend child 0 root path = some last ∧
        child path.length last index = some table := by
  rw [descend_concat, Option.bind_eq_some_iff, Nat.zero_add]

/-- Tables that keep their children keep their paths. -/
theorem descend_congr (same : ∀ path table index, descend child 0 root path = some table →
    child' path.length table index = child path.length table index) (path : List Nat) :
    descend child' 0 root path = descend child 0 root path := by
  induction path using List.reverseRecOn with
  | nil => rfl
  | append_singleton path index inductionHypothesis =>
      rw [descend_concat, descend_concat, inductionHypothesis, Nat.zero_add]
      cases found : descend child 0 root path with
      | none => rfl
      | some table =>
          simp only [Option.bind_some]
          exact same path table index found

/-- A graft adds one path. -/
theorem descend_graft {path : List Nat} {table index fresh : Nat}
    (found : descend child 0 root path = some table) (empty : child path.length table index = none)
    (slot : child' path.length table index = some fresh)
    (others : ∀ q t i, descend child 0 root q = some t → ¬ (q = path ∧ i = index) →
      child' q.length t i = child q.length t i)
    (bare : ∀ depth i, child' depth fresh i = none) (q : List Nat) (t : Nat) :
    descend child' 0 root q = some t ↔
      descend child 0 root q = some t ∨ (q = path ++ [index] ∧ t = fresh) := by
  induction q using List.reverseRecOn generalizing t with
  | nil =>
      constructor
      · exact Or.inl
      · rintro (old | ⟨impossible, _⟩)
        · exact old
        · exact absurd impossible.symm (List.concat_ne_nil _ _)
  | append_singleton q i inductionHypothesis =>
      rw [descend_concat_eq_some, descend_concat_eq_some]
      constructor
      · rintro ⟨last, reached, next⟩
        rcases (inductionHypothesis last).mp reached with old | ⟨_, isFresh⟩
        · by_cases here : q = path ∧ i = index
          · rcases here with ⟨rfl, rfl⟩
            rw [found] at old
            cases old
            rw [slot] at next
            cases next
            exact Or.inr ⟨rfl, rfl⟩
          · rw [others q last i old here] at next
            exact Or.inl ⟨last, old, next⟩
        · rw [isFresh, bare] at next
          cases next
      · rintro (⟨last, old, next⟩ | ⟨same, rfl⟩)
        · have elsewhere : ¬ (q = path ∧ i = index) := by
            rintro ⟨rfl, rfl⟩
            rw [found] at old
            cases old
            rw [empty] at next
            cases next
          refine ⟨last, (inductionHypothesis last).mpr (Or.inl old), ?_⟩
          rw [others q last i old elsewhere]
          exact next
        · rcases List.append_inj' same rfl with ⟨rfl, sameIndex⟩
          cases sameIndex
          exact ⟨table, (inductionHypothesis table).mpr (Or.inl found), slot⟩

/-- Grafting a table that was not reached keeps the paths unique. -/
theorem UniquePaths.graft (unique : UniquePaths child root) {path : List Nat} {index fresh : Nat}
    (new : ∀ q, descend child 0 root q ≠ some fresh)
    (grafted : ∀ q t, descend child' 0 root q = some t ↔
      descend child 0 root q = some t ∨ (q = path ++ [index] ∧ t = fresh)) :
    UniquePaths child' root := by
  intro p q table reachedP reachedQ
  rcases (grafted p table).mp reachedP with oldP | ⟨rfl, rfl⟩
  · rcases (grafted q table).mp reachedQ with oldQ | ⟨rfl, rfl⟩
    · exact unique p q table oldP oldQ
    · exact absurd oldP (new p)
  · rcases (grafted q table).mp reachedQ with oldQ | ⟨rfl, _⟩
    · exact absurd oldQ (new q)
    · rfl

end Paths

end Machine
end AuraKernel
