import Mathlib.Data.Nat.Digits.Lemmas

namespace AuraKernel
namespace Machine

/-!
# Canonical numerals

The digits of a numeral are written with the most significant one first.  Every
number has one numeral without leading zeros.
-/

section Numerals

variable {base v : Nat} {digits : List Nat}

/-- The value of a numeral, by the rule of Horner. -/
def positional (base : Nat) (digits : List Nat) : Nat :=
  digits.foldl (fun value digit => value * base + digit) 0

/-- A numeral of `v` without leading zeros. -/
structure Canonical (base : Nat) (digits : List Nat) (v : Nat) : Prop where
  small : ∀ digit ∈ digits, digit < base
  nonempty : digits ≠ []
  noLeadingZero : ∀ rest, digits = 0 :: rest → rest = []
  value : positional base digits = v

def canonicalDigits (base v : Nat) : List Nat :=
  if v = 0 then [0] else (Nat.digits base v).reverse

theorem positional_eq_ofDigits : positional base digits = Nat.ofDigits base digits.reverse := by
  have step : (fun digit value => value * base + digit) =
      fun (digit value : Nat) => digit + base * value := by
    funext digit value
    rw [Nat.mul_comm, Nat.add_comm]
  unfold positional
  rw [List.foldl_eq_foldr_reverse, step, Nat.ofDigits_eq_foldr]
  rfl

theorem canonicalDigits_canonical (large : 1 < base) (v : Nat) :
    Canonical base (canonicalDigits base v) v := by
  unfold canonicalDigits
  by_cases null : v = 0
  · rw [if_pos null, null]
    constructor
    · intro digit listed
      rw [List.mem_singleton.mp listed]
      exact Nat.lt_trans Nat.zero_lt_one large
    · exact List.cons_ne_nil 0 []
    · exact fun rest same => (List.cons.inj same).2.symm
    · exact Nat.zero_mul base
  · rw [if_neg null]
    constructor
    · exact fun digit listed => Nat.digits_lt_base large (List.mem_reverse.mp listed)
    · exact fun none => Nat.digits_ne_nil_iff_ne_zero.mpr null (List.reverse_eq_nil_iff.mp none)
    · intro rest same
      have last : (Nat.digits base v).getLast? = some 0 := by
        rw [List.getLast?_eq_head?_reverse, same]
        rfl
      rw [List.getLast?_eq_some_getLast (Nat.digits_ne_nil_iff_ne_zero.mpr null)] at last
      exact absurd (Option.some.inj last) (Nat.getLast_digit_ne_zero base null)
    · rw [positional_eq_ofDigits, List.reverse_reverse, Nat.ofDigits_digits]

theorem Canonical.unique (large : 1 < base) (canonical : Canonical base digits v) :
    digits = canonicalDigits base v := by
  have value := canonical.value
  cases digits with
  | nil => exact absurd rfl canonical.nonempty
  | cons digit rest =>
      by_cases zero : digit = 0
      · have alone := canonical.noLeadingZero rest (by rw [zero])
        rw [zero, alone] at value
        have null : v = 0 := value.symm.trans (Nat.zero_mul base)
        unfold canonicalDigits
        rw [if_pos null, zero, alone]
      · have small : ∀ other ∈ (digit :: rest).reverse, other < base := fun other listed =>
          canonical.small other (List.mem_reverse.mp listed)
        have leads : ∀ some, (digit :: rest).reverse.getLast some ≠ 0 := by
          intro some
          rw [List.getLast_reverse]
          exact zero
        have digits : Nat.digits base v = (digit :: rest).reverse := by
          rw [← value, positional_eq_ofDigits]
          exact Nat.digits_ofDigits base large _ small leads
        have positive : v ≠ 0 := by
          intro null
          rw [null, Nat.digits_zero] at digits
          exact List.cons_ne_nil digit rest (List.reverse_eq_nil_iff.mp digits.symm)
        unfold canonicalDigits
        rw [if_neg positive, digits, List.reverse_reverse]

end Numerals

end Machine
end AuraKernel
