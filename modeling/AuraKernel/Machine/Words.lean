import Mathlib.Data.Nat.Bitwise
import Mathlib.Tactic.Ring

namespace AuraKernel
namespace Machine

/-!
# Machine words as natural numbers

A C value of an unsigned type of `w` bits is represented by a natural number
below `2 ^ w`.  Additions that may wrap are written with an explicit
reduction; the bit operations are those of `Nat`.  Masks of the form
`2 ^ n - 2 ^ k` occur throughout (rounding up to a power of two, the address
field of a page-table entry), so the module turns them into quotients and
remainders once, after which linear arithmetic applies.
-/

/-- The number of values of a 64-bit word. -/
def wordSize : Nat := 2 ^ 64

/-- Reduction modulo `2 ^ 64`, the result of an unsigned 64-bit operation. -/
def wrap64 (value : Nat) : Nat := value % 2 ^ 64

/-- Reduction modulo `2 ^ 32`, the result of an unsigned 32-bit operation. -/
def wrap32 (value : Nat) : Nat := value % 2 ^ 32

theorem wrap64_of_lt {value : Nat} (bound : value < 2 ^ 64) : wrap64 value = value := by
  unfold wrap64
  exact Nat.mod_eq_of_lt bound

theorem wrap64_lt (value : Nat) : wrap64 value < 2 ^ 64 := by
  unfold wrap64
  exact Nat.mod_lt _ (by decide)

theorem wrap32_of_lt {value : Nat} (bound : value < 2 ^ 32) : wrap32 value = value := by
  unfold wrap32
  exact Nat.mod_eq_of_lt bound

/-- Unsigned 64-bit subtraction of two words.  Written by cases rather than as a
reduction of `left + 2 ^ 64 - right`, it never makes the kernel count up to the
modulus when two states are compared. -/
def sub64 (left right : Nat) : Nat :=
  if right ≤ left then left - right else left + 2 ^ 64 - right

theorem sub64_of_le {left right : Nat} (le : right ≤ left) : sub64 left right = left - right := by
  unfold sub64
  rw [if_pos le]

/-! ## High masks -/

/-- The bits of `2 ^ n - 2 ^ k` are exactly those from `k` up to `n`. -/
theorem testBit_highMask {k n : Nat} (le : k ≤ n) (index : Nat) :
    (2 ^ n - 2 ^ k).testBit index = (decide (k ≤ index) && decide (index < n)) := by
  have split : 2 ^ n - 2 ^ k = (2 ^ (n - k) - 1) * 2 ^ k := by
    rw [Nat.sub_mul, Nat.one_mul, ← Nat.pow_add, Nat.sub_add_cancel le]
  rw [split, Nat.testBit_mul_two_pow, Nat.testBit_two_pow_sub_one]
  by_cases low : k ≤ index
  · have shifted : (index - k < n - k) ↔ index < n := by omega
    simp only [low, decide_true, Bool.true_and, shifted]
  · simp only [low, decide_false, Bool.false_and]

/-- A high mask keeps the value below `2 ^ n` and clears its low `k` bits. -/
theorem and_highMask {k n : Nat} (le : k ≤ n) (value : Nat) :
    value &&& (2 ^ n - 2 ^ k) = value % 2 ^ n / 2 ^ k * 2 ^ k := by
  apply Nat.eq_of_testBit_eq
  intro index
  rw [Nat.testBit_and, testBit_highMask le, Nat.testBit_mul_two_pow]
  by_cases low : k ≤ index
  · have back : index - k + k = index := Nat.sub_add_cancel low
    simp only [low, decide_true, Bool.true_and, Nat.testBit_div_two_pow, back,
      Nat.testBit_mod_two_pow, Bool.and_comm]
  · simp only [low, decide_false, Bool.false_and, Bool.and_false]

/-- Adding small flags to an aligned value is the same as or-ing them in. -/
theorem or_of_aligned {k value flags : Nat} (aligned : value % 2 ^ k = 0)
    (small : flags < 2 ^ k) : value ||| flags = value + flags := by
  have shape : value = 2 ^ k * (value / 2 ^ k) := by
    have := Nat.div_add_mod value (2 ^ k)
    omega
  rw [shape, ← Nat.two_pow_add_eq_or_of_lt small]

/-! ## Rounding up to a power of two -/

/-- `(val + align - 1) & ~(align - 1)` in 64-bit arithmetic.  The sum may wrap,
in which case the result is smaller than `val`. -/
def alignUp (val align : Nat) : Nat :=
  wrap64 (val + align - 1) &&& (2 ^ 64 - 1 - (align - 1))

theorem alignUp_eq {k : Nat} (le : k ≤ 64) (val : Nat) :
    alignUp val (2 ^ k) = wrap64 (val + 2 ^ k - 1) / 2 ^ k * 2 ^ k := by
  have positive : 0 < 2 ^ k := Nat.two_pow_pos k
  have mask : 2 ^ 64 - 1 - (2 ^ k - 1) = 2 ^ 64 - 2 ^ k := by omega
  unfold alignUp
  rw [mask, and_highMask le, Nat.mod_eq_of_lt (wrap64_lt _)]

theorem alignUp_lt (val align : Nat) : alignUp val align < 2 ^ 64 :=
  Nat.lt_of_le_of_lt Nat.and_le_left (wrap64_lt _)

/-- Without overflow the result is the least multiple of `2 ^ k` from `val` on. -/
theorem le_alignUp {k val : Nat} (le : k ≤ 64) (room : val + 2 ^ k - 1 < 2 ^ 64) :
    val ≤ alignUp val (2 ^ k) ∧ alignUp val (2 ^ k) ≤ val + 2 ^ k - 1 := by
  rw [alignUp_eq le, wrap64_of_lt room]
  have positive : 0 < 2 ^ k := Nat.two_pow_pos k
  have divMod := Nat.div_add_mod' (val + 2 ^ k - 1) (2 ^ k)
  have small := Nat.mod_lt (val + 2 ^ k - 1) positive
  omega

end Machine
end AuraKernel
