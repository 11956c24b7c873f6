import Mathlib.Logic.Function.Basic

namespace AuraKernel
namespace Machine

/-!
# Arrays with bounds

A C array of `size` elements is a function on indices here, together with the
accesses that stay inside it: a load or a store at any other index has no
result.  The functions that are written with these accesses return only if
every index is in bounds.  A counting loop is written with `forRange`, and its
rule carries an invariant from each index to the next.
-/

section Access

variable {α : Type*} {size i : Nat} {array : Nat → α} {value : α}

/-- `array[i]` -/
def loadAt (size : Nat) (array : Nat → α) (i : Nat) : Option α :=
  if i < size then some (array i) else none

/-- `array[i] = value` -/
def storeAt (size : Nat) (array : Nat → α) (i : Nat) (value : α) : Option (Nat → α) :=
  if i < size then some (Function.update array i value) else none

theorem loadAt_of_lt (inside : i < size) : loadAt size array i = some (array i) :=
  if_pos inside

theorem storeAt_of_lt (inside : i < size) :
    storeAt size array i value = some (Function.update array i value) :=
  if_pos inside

theorem storeAt_eq_none (outside : size ≤ i) : storeAt size array i value = none :=
  if_neg (Nat.not_lt.mpr outside)

end Access

section Patch

variable {α : Type*} {low mid high : Nat} {new old : Nat → α}

/-- The array `old` with the part from `low` up to `high` taken from `new`. -/
def patch (low high : Nat) (new old : Nat → α) : Nat → α := fun k =>
  if low ≤ k ∧ k < high then new k else old k

theorem patch_inside {k : Nat} (inside : low ≤ k ∧ k < high) : patch low high new old k = new k :=
  if_pos inside

theorem patch_outside {k : Nat} (outside : k < low ∨ high ≤ k) :
    patch low high new old k = old k :=
  if_neg (by omega)

theorem patch_empty : patch low low new old = old := by
  funext k
  exact patch_outside (by omega)

/-- A store at its end makes the patch longer. -/
theorem update_patch (le : low ≤ high) :
    Function.update (patch low high new old) high (new high) = patch low (high + 1) new old := by
  funext k
  by_cases here : k = high
  · subst here
    rw [Function.update_self, patch_inside ⟨le, Nat.lt_succ_self k⟩]
  · rw [Function.update_of_ne here]
    by_cases inside : low ≤ k ∧ k < high
    · rw [patch_inside inside, patch_inside ⟨inside.1, Nat.lt_succ_of_lt inside.2⟩]
    · rw [patch_outside (by omega), patch_outside (by omega)]

theorem patch_patch (below : low ≤ mid) (above : mid ≤ high) :
    patch mid high new (patch low mid new old) = patch low high new old := by
  funext k
  unfold patch
  split
  · rw [if_pos (by omega)]
  · split
    · rw [if_pos (by omega)]
    · rw [if_neg (by omega)]

end Patch

section Loops

variable {σ : Type*}

/-- `for (i = first; i < first + count; i++)`, with a body that may fail -/
def forRange (first : Nat) : Nat → (Nat → σ → Option σ) → σ → Option σ
  | 0, _, s => some s
  | count + 1, body, s => (body first s).bind (forRange (first + 1) count body)

/-- What holds before the first index and is carried from each index to the next holds behind
the last one. -/
theorem forRange_rule {invariant : Nat → σ → Prop} {body : Nat → σ → Option σ} {first count : Nat}
    {s : σ} (start : invariant first s)
    (step : ∀ i s, first ≤ i → i < first + count → invariant i s →
      ∃ s', body i s = some s' ∧ invariant (i + 1) s') :
    ∃ s', forRange first count body s = some s' ∧ invariant (first + count) s' := by
  induction count generalizing first s with
  | zero => exact ⟨s, rfl, start⟩
  | succ count inductionHypothesis =>
      rcases step first s (Nat.le_refl _) (Nat.lt_add_of_pos_right (Nat.succ_pos _)) start with
        ⟨next, ran, holds⟩
      rcases inductionHypothesis holds fun i s low high => step i s (by omega) (by omega) with
        ⟨last, finished, done⟩
      refine ⟨last, ?_, ?_⟩
      · rw [forRange, ran]
        exact finished
      · rw [show first + (count + 1) = first + 1 + count by omega]
        exact done

end Loops

end Machine
end AuraKernel
