import AuraKernel.Machine.Memory
import Mathlib.Data.Nat.Count

namespace AuraKernel
namespace Machine

/-!
# Bit arrays stored in bytes, and scans for the first free position

A bitmap allocator keeps one bit per object, eight to a byte, and looks for
the lowest clear bit.  This module has the parts of that design that do not
depend on what the bits stand for: testing, setting and clearing a bit of a
byte array in memory, the lowest clear bit of a 64-bit word, and the two
searches (bit by bit, and for a run of clear bits) over an arbitrary predicate.
-/

/-! ## Bits of a byte -/

/-- The one-bit mask `1 << (bit % 8)` as a byte. -/
def bitMask (bit : Nat) : UInt8 := UInt8.ofNat (1 <<< (bit % 8))

theorem bitMask_toNat (bit : Nat) : (bitMask bit).toNat = 2 ^ (bit % 8) := by
  have small : 2 ^ (bit % 8) < 2 ^ 8 := Nat.pow_lt_pow_right (by decide) (Nat.mod_lt _ (by decide))
  unfold bitMask
  rw [UInt8.toNat_ofNat', Nat.shiftLeft_eq, Nat.one_mul, Nat.mod_eq_of_lt small]

theorem and_bitMask_ne_zero (byte : UInt8) (bit : Nat) :
    (byte &&& bitMask bit != 0) = byte.toNat.testBit (bit % 8) := by
  have value : (byte &&& bitMask bit).toNat =
      (byte.toNat.testBit (bit % 8)).toNat * 2 ^ (bit % 8) := by
    rw [UInt8.toNat_and, bitMask_toNat, Nat.and_two_pow]
  have positive : 0 < 2 ^ (bit % 8) := Nat.two_pow_pos _
  rw [Bool.eq_iff_iff, bne_iff_ne, ne_eq, ← UInt8.toNat_inj, value]
  cases byte.toNat.testBit (bit % 8) <;> simp

theorem testBit_or_bitMask (byte : UInt8) (bit index : Nat) :
    (byte ||| bitMask bit).toNat.testBit index =
      (byte.toNat.testBit index || decide (bit % 8 = index)) := by
  rw [UInt8.toNat_or, Nat.testBit_or, bitMask_toNat, Nat.testBit_two_pow]

theorem testBit_and_not_bitMask (byte : UInt8) (bit : Nat) {index : Nat} (bound : index < 8) :
    (byte &&& ~~~ bitMask bit).toNat.testBit index =
      (byte.toNat.testBit index && !decide (bit % 8 = index)) := by
  have small : 2 ^ (bit % 8) < 2 ^ 8 := Nat.pow_lt_pow_right (by decide) (Nat.mod_lt _ (by decide))
  have shape : UInt8.size - 1 - 2 ^ (bit % 8) = 2 ^ 8 - (2 ^ (bit % 8) + 1) := by
    change 256 - 1 - _ = _
    omega
  rw [UInt8.toNat_and, Nat.testBit_and, UInt8.toNat_not, bitMask_toNat, shape,
    Nat.testBit_two_pow_sub_succ small, Nat.testBit_two_pow]
  simp only [bound, decide_true, Bool.true_and]

/-! ## Bits of a byte array -/

/-- Test bit number `bit` of the array at `base`. -/
def bitTest (mem : Mem) (base bit : Nat) : Bool :=
  mem (base + bit / 8) &&& bitMask bit != 0

/-- Set bit number `bit` of the array at `base`. -/
def bitSet (mem : Mem) (base bit : Nat) : Mem :=
  mem.store8 (base + bit / 8) (mem (base + bit / 8) ||| bitMask bit)

/-- Clear bit number `bit` of the array at `base`. -/
def bitClear (mem : Mem) (base bit : Nat) : Mem :=
  mem.store8 (base + bit / 8) (mem (base + bit / 8) &&& ~~~ bitMask bit)

theorem bitTest_eq_testBit (mem : Mem) (base bit : Nat) :
    bitTest mem base bit = (mem (base + bit / 8)).toNat.testBit (bit % 8) :=
  and_bitMask_ne_zero _ _

theorem bitTest_bitSet (mem : Mem) (base bit other : Nat) :
    bitTest (bitSet mem base bit) base other =
      (bitTest mem base other || decide (other = bit)) := by
  rw [bitTest_eq_testBit, bitTest_eq_testBit]
  by_cases sameByte : other / 8 = bit / 8
  · have sameBit : (bit % 8 = other % 8) ↔ other = bit := by omega
    rw [bitSet, sameByte, Mem.store8_self, testBit_or_bitMask]
    simp only [sameBit]
  · have different : other ≠ bit := fun same => sameByte (by rw [same])
    rw [bitSet, Mem.store8_of_ne (by omega)]
    simp only [different, decide_false, Bool.or_false]

theorem bitTest_bitClear (mem : Mem) (base bit other : Nat) :
    bitTest (bitClear mem base bit) base other =
      (bitTest mem base other && !decide (other = bit)) := by
  rw [bitTest_eq_testBit, bitTest_eq_testBit]
  by_cases sameByte : other / 8 = bit / 8
  · have sameBit : (bit % 8 = other % 8) ↔ other = bit := by omega
    rw [bitClear, sameByte, Mem.store8_self,
      testBit_and_not_bitMask _ _ (Nat.mod_lt other (by decide))]
    simp only [sameBit]
  · have different : other ≠ bit := fun same => sameByte (by rw [same])
    rw [bitClear, Mem.store8_of_ne (by omega)]
    simp only [different, decide_false, Bool.not_false, Bool.and_true]

theorem bitSet_apply_of_ne {mem : Mem} {base bit place : Nat} (different : place ≠ base + bit / 8) :
    bitSet mem base bit place = mem place :=
  Mem.store8_of_ne different

theorem bitClear_apply_of_ne {mem : Mem} {base bit place : Nat}
    (different : place ≠ base + bit / 8) : bitClear mem base bit place = mem place :=
  Mem.store8_of_ne different

/-- Reading the array one little-endian 64-bit word at a time gives the same bits. -/
theorem testBit_load64 {mem : Mem} {base word index : Nat} (bound : index < 64) :
    (mem.load64 (base + 8 * word)).testBit index = bitTest mem base (word * 64 + index) := by
  have quotient : base + 8 * word + index / 8 = base + (word * 64 + index) / 8 := by omega
  have remainder : (word * 64 + index) % 8 = index % 8 := by omega
  rw [Mem.load64, Mem.testBit_load (by omega), bitTest_eq_testBit, quotient, remainder]

/-! ## The lowest clear bit of a word -/

/-- `__builtin_ctzll`: the number of trailing zero bits of a 64-bit value. -/
def ctzll (value : Nat) : Nat := (BitVec.ofNat 64 value).ctz.toNat

/-- The bitwise complement of a 64-bit value. -/
def not64 (value : Nat) : Nat := value ^^^ (2 ^ 64 - 1)

theorem testBit_not64 {value index : Nat} (bound : index < 64) :
    (not64 value).testBit index = !value.testBit index := by
  unfold not64
  rw [Nat.testBit_xor, Nat.testBit_two_pow_sub_one]
  simp only [bound, decide_true, Bool.xor_true]

/-- A word other than all ones has a lowest clear bit, and `ctzll (~val)` is its index. -/
theorem ctzll_not64 {value : Nat} (bound : value < 2 ^ 64) (notFull : value ≠ 2 ^ 64 - 1) :
    ctzll (not64 value) < 64 ∧ value.testBit (ctzll (not64 value)) = false ∧
      ∀ index, index < ctzll (not64 value) → value.testBit index = true := by
  have complement_lt : not64 value < 2 ^ 64 := Nat.xor_lt_two_pow bound (by decide)
  have nonzero : BitVec.ofNat 64 (not64 value) ≠ 0#64 := by
    intro zero
    have toNat := congrArg BitVec.toNat zero
    rw [BitVec.toNat_ofNat, Nat.mod_eq_of_lt complement_lt] at toNat
    exact notFull (Nat.xor_eq_zero_iff.mp toNat)
  have present := BitVec.getLsbD_true_ctz_of_ne_zero nonzero
  have below : ctzll (not64 value) < 64 := BitVec.lt_of_getLsbD present
  refine ⟨below, ?_, ?_⟩
  · have bit : (not64 value).testBit (ctzll (not64 value)) = true := by
      rw [BitVec.getLsbD_ofNat] at present
      exact (Bool.and_eq_true_iff.mp present).2
    rw [testBit_not64 below] at bit
    simpa using bit
  · intro index less
    have inside : index < 64 := by omega
    have clear := BitVec.getLsbD_false_of_lt_ctz less
    rw [BitVec.getLsbD_ofNat, testBit_not64 inside] at clear
    simpa [inside] using clear

/-! ## The first position that satisfies a predicate -/

/-- `found` is the least position of `[low, high)` that satisfies `holds`. -/
structure FirstIn (holds : Nat → Prop) (low high found : Nat) : Prop where
  low_le : low ≤ found
  lt_high : found < high
  sound : holds found
  least : ∀ earlier, low ≤ earlier → earlier < found → ¬ holds earlier

theorem FirstIn.unique {holds : Nat → Prop} {low high first second : Nat}
    (left : FirstIn holds low high first) (right : FirstIn holds low high second) :
    first = second := by
  rcases Nat.lt_trichotomy first second with less | same | greater
  · exact absurd left.sound (right.least first left.low_le less)
  · exact same
  · exact absurd right.sound (left.least second right.low_le greater)

/-- A search that starts later finds the same position when it skips none. -/
theorem FirstIn.extend {holds : Nat → Prop} {low start high found : Nat}
    (first : FirstIn holds start high found) (le : low ≤ start)
    (skipped : ∀ position, low ≤ position → position < start → ¬ holds position) :
    FirstIn holds low high found where
  low_le := Nat.le_trans le first.low_le
  lt_high := first.lt_high
  sound := first.sound
  least := by
    intro earlier lower less
    by_cases before : earlier < start
    · exact skipped earlier lower before
    · exact first.least earlier (by omega) less

/-- All positions of the run `[start, start + length)` satisfy `holds`. -/
def Run (holds : Nat → Prop) (length start : Nat) : Prop :=
  ∀ position, start ≤ position → position < start + length → holds position

/-! ## Counting -/

/-- Making one more position below `bound` true raises the count by one. -/
theorem count_insert {before after : Nat → Bool} {bound position : Nat} (less : position < bound)
    (fresh : before position = false)
    (effect : ∀ index, after index = (before index || decide (index = position))) :
    Nat.count (fun index => after index = true) bound =
      Nat.count (fun index => before index = true) bound + 1 := by
  induction bound with
  | zero => omega
  | succ bound inductionHypothesis =>
      rw [Nat.count_succ, Nat.count_succ]
      by_cases last : position = bound
      · subst last
        have same : Nat.count (fun index => after index = true) position =
            Nat.count (fun index => before index = true) position := by
          rw [Nat.count_eq_card_filter_range, Nat.count_eq_card_filter_range]
          congr 1
          apply Finset.filter_congr
          intro index member
          have different : index ≠ position := Nat.ne_of_lt (Finset.mem_range.mp member)
          simp only [effect index, different, decide_false, Bool.or_false]
        rw [same, effect position, fresh]
        simp
      · have different : bound ≠ position := fun same => last same.symm
        rw [inductionHypothesis (by omega), effect bound]
        simp only [different, decide_false, Bool.or_false]
        omega

/-- Making a true position below `bound` false lowers the count by one. -/
theorem count_remove {before after : Nat → Bool} {bound position : Nat} (less : position < bound)
    (present : before position = true)
    (effect : ∀ index, after index = (before index && !decide (index = position))) :
    Nat.count (fun index => after index = true) bound + 1 =
      Nat.count (fun index => before index = true) bound := by
  have absent : after position = false := by simp [effect]
  refine (count_insert less absent ?_).symm
  intro index
  rw [effect index]
  by_cases same : index = position
  · subst same
    simp [present]
  · simp [same]

end Machine
end AuraKernel
