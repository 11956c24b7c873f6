import Mathlib.Data.List.Basic

namespace AuraKernel
namespace Machine

/-!
# Prefix codes

Items are written one behind the other, and whoever reads the stream can tell
where the first item ends.  A stream is then cut into items in one way only, as
far as it can be cut at all.
-/

/-- Code words, and a reader for the first one of a stream. -/
structure PrefixCode (α β : Type*) where
  encode : α → List β
  first : List β → Option (α × List β)
  first_iff : ∀ stream item rest, first stream = some (item, rest) ↔ stream = encode item ++ rest
  encode_ne_nil : ∀ item, encode item ≠ []

namespace PrefixCode

variable {α β : Type*} (code : PrefixCode α β)

/-- The code words of a list of items. -/
def encodeAll (items : List α) : List β := items.flatMap code.encode

@[simp] theorem encodeAll_nil : code.encodeAll [] = [] := rfl

@[simp] theorem encodeAll_cons (item : α) (items : List α) :
    code.encodeAll (item :: items) = code.encode item ++ code.encodeAll items := rfl

theorem encodeAll_singleton (item : α) : code.encodeAll [item] = code.encode item :=
  List.append_nil _

theorem encodeAll_append (items more : List α) :
    code.encodeAll (items ++ more) = code.encodeAll items ++ code.encodeAll more :=
  List.flatMap_append

variable {code} {items others : List α} {rest rest' stream : List β}

theorem first_encode (item : α) (rest : List β) :
    code.first (code.encode item ++ rest) = some (item, rest) :=
  (code.first_iff _ _ _).mpr rfl

/-- A stream that begins with an item is not empty. -/
theorem first_nil : code.first [] = none := by
  cases read : code.first [] with
  | none => rfl
  | some pair =>
      have split := (code.first_iff _ _ _).mp read
      exact absurd (List.append_eq_nil_iff.mp split.symm).1 (code.encode_ne_nil _)

theorem encode_append_inj {item other : α}
    (same : code.encode item ++ rest = code.encode other ++ rest') :
    item = other ∧ rest = rest' := by
  have read := code.first_encode item rest
  rw [same, first_encode] at read
  exact ⟨(Prod.mk.inj (Option.some.inj read)).1.symm, (Prod.mk.inj (Option.some.inj read)).2.symm⟩

/-- Of two ways to cut the same stream, one goes on where the other stops. -/
theorem encodeAll_cases (same : code.encodeAll items ++ rest = code.encodeAll others ++ rest') :
    (∃ more, others = items ++ more ∧ rest = code.encodeAll more ++ rest') ∨
      ∃ more, items = others ++ more ∧ rest' = code.encodeAll more ++ rest := by
  induction items generalizing others with
  | nil => exact Or.inl ⟨others, rfl, same⟩
  | cons item items inductionHypothesis =>
      cases others with
      | nil => exact Or.inr ⟨item :: items, rfl, same.symm⟩
      | cons other others =>
          rw [encodeAll_cons, encodeAll_cons, List.append_assoc, List.append_assoc] at same
          rcases encode_append_inj same with ⟨rfl, behind⟩
          rcases inductionHypothesis behind with ⟨more, rfl, shape⟩ | ⟨more, rfl, shape⟩
          · exact Or.inl ⟨more, rfl, shape⟩
          · exact Or.inr ⟨more, rfl, shape⟩

/-- Where no item begins, the cut cannot go on. -/
theorem prefix_of_stuck (stuck : code.first rest = none)
    (same : code.encodeAll items ++ rest = code.encodeAll others ++ rest') :
    ∃ more, items = others ++ more := by
  rcases encodeAll_cases same with ⟨more, rfl, shape⟩ | ⟨more, rfl, _⟩
  · cases more with
    | nil => exact ⟨[], by simp⟩
    | cons item more =>
        rw [shape, encodeAll_cons, List.append_assoc, first_encode] at stuck
        cases stuck
  · exact ⟨more, rfl⟩

theorem encodeAll_injective (same : code.encodeAll items = code.encodeAll others) :
    items = others := by
  have both : code.encodeAll items ++ [] = code.encodeAll others ++ [] := by rw [same]
  rcases prefix_of_stuck first_nil both with ⟨more, rfl⟩
  rcases prefix_of_stuck first_nil both.symm with ⟨others', shape⟩
  have none : more.length + others'.length = 0 := by
    have lengths := congrArg List.length shape
    simp only [List.length_append] at lengths
    omega
  rw [List.length_eq_zero_iff.mp (Nat.eq_zero_of_add_eq_zero_right none), List.append_nil]

end PrefixCode

end Machine
end AuraKernel
