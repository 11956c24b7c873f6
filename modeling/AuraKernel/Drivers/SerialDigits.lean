import AuraKernel.Drivers.SerialText
import AuraKernel.Machine.BoundedArray
import AuraKernel.Machine.Numerals

namespace AuraKernel
namespace Drivers

open Machine

/-!
# The digit buffers of the serial line

`print_number` and `print_hex_pointer` store the digits of a number in a local
array, the last one first, and send the array backwards.  The arrays have 8, 10
and 17 characters.  Here the loops are written with the accesses to these arrays
and with a round of the loop for each unit of fuel; a call that leaves its array
or does not end has no result.
-/

/-! ## The loops -/

/-- `while (v != 0) { tmp[i++] = ..; v = ..; }`, from `i` on: the last `i`, and `tmp` -/
def storeDigits (radix : Radix) (size : Nat) :
    Nat → Nat → Nat → (Nat → UInt8) → Option (Nat × (Nat → UInt8))
  | 0, _, _, _ => none
  | fuel + 1, i, v, tmp =>
      if v ≠ 0 then do
        let tmp ← storeAt size tmp i (radix.last v)
        storeDigits radix size fuel (i + 1) (radix.rest v) tmp
      else some (i, tmp)

/-- `while (i > 0) serial_putc(port, tmp[--i])`: the characters that are sent -/
def takeDigits (size : Nat) (tmp : Nat → UInt8) : Nat → Option (List UInt8)
  | 0 => some []
  | i + 1 => do
      let c ← loadAt size tmp i
      let rest ← takeDigits size tmp i
      some (c :: rest)

/-- What the three digit loops have in common: zero is sent without them, and an array of
`size` characters gets no more rounds than it can hold, and the last test. -/
def digitsOf (radix : Radix) (size v : Nat) (tmp : Nat → UInt8) : Option (List UInt8) :=
  if v = 0 then some [zeroChar]
  else do
    let (i, tmp) ← storeDigits radix size (size + 1) 0 v tmp
    takeDigits size tmp i

/-- `print_number`, with its arrays of any contents: the characters that are sent -/
def printNumberIn (hex : Int) (v : BitVec 32) (tmp : Nat → UInt8) : Option (List UInt8) :=
  if hex ≠ 0 then digitsOf hexadecimal 8 v.toNat tmp else digitsOf decimal 10 v.toNat tmp

/-- `print_signed` -/
def printSignedIn (v : BitVec 32) (tmp : Nat → UInt8) : Option (List UInt8) :=
  if v.toInt < 0 then do
    -- The negation is that of a 64-bit integer
    let rest ← printNumberIn 0 (BitVec.ofInt 32 (-v.toInt)) tmp
    some (minusChar :: rest)
  else printNumberIn 0 v tmp

/-- `print_hex_pointer` -/
def printHexPointerIn (p : BitVec 64) (tmp : Nat → UInt8) : Option (List UInt8) := do
  let rest ← digitsOf hexadecimal 17 p.toNat tmp
  some (zeroChar :: 120 :: rest)

/-- A call that sends characters, for at most `fuel` reads of the line status register for each
of them. -/
def sendOn (port : UInt16) (fuel : Nat) (chars : Option (List UInt8)) (uart : Uart) :
    Option Uart :=
  chars.bind fun chars => serialSend port fuel chars uart

/-- With any contents of its array the call ends, stays inside the array and sends `lead` and
the one canonical numeral of `v`. -/
def SendsNumeral (call : (Nat → UInt8) → Option (List UInt8)) (lead : List UInt8)
    (base v : Nat) : Prop :=
  ∃ digits, Canonical base digits v ∧ (∀ other, Canonical base other v → other = digits) ∧
    ∀ tmp, call tmp = some (lead ++ digits.map digitChar) ∧
      ∀ port uart, uart.Drains → ∃ fuel, ∀ more, fuel ≤ more →
        ∃ uart', sendOn port more (call tmp) uart = some uart' ∧
          uart'.writes =
            uart.writes ++ (lead ++ digits.map digitChar).map ((port + regData, ·))

/-! ## What is in the array -/

section Front

variable {size i : Nat} {tmp : Nat → UInt8} {c : UInt8}

/-- The first characters of the array. -/
def front (tmp : Nat → UInt8) (i : Nat) : List UInt8 := (List.range i).map tmp

theorem front_succ : front tmp (i + 1) = front tmp i ++ [tmp i] := by
  unfold front
  rw [List.range_succ, List.map_append]
  rfl

/-- A store behind the first characters makes them longer. -/
theorem front_update : front (Function.update tmp i c) (i + 1) = front tmp i ++ [c] := by
  have before : front (Function.update tmp i c) i = front tmp i := by
    refine List.map_congr_left fun k inFront => Function.update_of_ne ?_ c tmp
    exact Nat.ne_of_lt (List.mem_range.mp inFront)
  rw [front_succ, before, Function.update_self]

theorem takeDigits_eq (inside : i ≤ size) : takeDigits size tmp i = some (front tmp i).reverse := by
  induction i with
  | zero => rfl
  | succ i inductionHypothesis =>
      rw [takeDigits, loadAt_of_lt inside, inductionHypothesis (Nat.le_of_succ_le inside),
        front_succ, List.reverse_append]
      rfl

end Front

/-! ## What is sent -/

section Digits

variable {radix : Radix} {base size : Nat}

/-- The loop puts the digits behind what is stored already, as long as the array holds them. -/
theorem storeDigits_eq (isRadix : radix.Of base) {fuel i v : Nat} {tmp : Nat → UInt8}
    (holds : i + (Nat.digits base v).length ≤ size) (enough : (Nat.digits base v).length < fuel) :
    ∃ tmp', storeDigits radix size fuel i v tmp =
        some (i + (Nat.digits base v).length, tmp') ∧
      front tmp' (i + (Nat.digits base v).length) =
        front tmp i ++ (Nat.digits base v).map digitChar := by
  induction fuel generalizing i v tmp with
  | zero => exact absurd enough (Nat.not_lt_zero _)
  | succ fuel inductionHypothesis =>
      rw [storeDigits]
      by_cases null : v = 0
      · rw [null, if_neg (not_not.mpr rfl), Nat.digits_zero]
        exact ⟨tmp, rfl, (List.append_nil _).symm⟩
      · have digits : Nat.digits base v = v % base :: Nat.digits base (v / base) :=
          Nat.digits_def' isRadix.large (Nat.pos_of_ne_zero null)
        rw [digits, List.length_cons] at holds enough
        have inside : i < size := by omega
        rcases @inductionHypothesis (i + 1) (v / base)
          (Function.update tmp i (digitChar (v % base))) (by omega) (by omega) with
          ⟨tmp', ran, stored⟩
        have count : i + ((Nat.digits base (v / base)).length + 1) =
            i + 1 + (Nat.digits base (v / base)).length := by omega
        refine ⟨tmp', ?_, ?_⟩
        · rw [if_pos null, storeAt_of_lt inside, isRadix.last_eq, isRadix.rest_eq, digits,
            List.length_cons, count]
          exact ran
        · rw [digits, List.length_cons, count, stored, front_update, List.map_cons,
            List.append_assoc]
          rfl

/-- An array that holds the digits of a number gives its numeral. -/
theorem digitsOf_eq (isRadix : radix.Of base) {v : Nat} (fits : v < base ^ size)
    (tmp : Nat → UInt8) :
    digitsOf radix size v tmp = some ((canonicalDigits base v).map digitChar) := by
  unfold digitsOf canonicalDigits
  by_cases null : v = 0
  · rw [if_pos null, if_pos null]
    rfl
  · have short := (Nat.digits_length_le_iff isRadix.large v).mpr fits
    rcases @storeDigits_eq radix base size isRadix (size + 1) 0 v tmp (by omega) (by omega) with
      ⟨tmp', ran, stored⟩
    rw [if_neg null, if_neg null, ran, List.map_reverse]
    have taken := @takeDigits_eq size (0 + (Nat.digits base v).length) tmp' (by omega)
    rw [stored] at taken
    exact taken

/-- A call that gives the numeral sends it. -/
theorem sendsNumeral_of_eq {call : (Nat → UInt8) → Option (List UInt8)} {lead : List UInt8}
    {v : Nat} (large : 1 < base)
    (gives : ∀ tmp, call tmp = some (lead ++ (canonicalDigits base v).map digitChar)) :
    SendsNumeral call lead base v := by
  refine ⟨canonicalDigits base v, canonicalDigits_canonical large v,
    fun other canonical => canonical.unique large, fun tmp => ⟨gives tmp, ?_⟩⟩
  intro port uart drains
  rw [gives tmp]
  exact serialSend_sends (lead ++ (canonicalDigits base v).map digitChar) drains

end Digits

/-! ## The three functions -/

section Functions

theorem printNumberIn_eq (hex : Int) (v : BitVec 32) (tmp : Nat → UInt8) :
    printNumberIn hex v tmp =
      some ((canonicalDigits (if hex ≠ 0 then 16 else 10) v.toNat).map digitChar) := by
  have small := v.isLt
  unfold printNumberIn
  by_cases isHex : hex ≠ 0
  · rw [if_pos isHex, if_pos isHex]
    exact digitsOf_eq hexadecimal_of (Nat.lt_of_lt_of_le small (by decide)) tmp
  · rw [if_neg isHex, if_neg isHex]
    exact digitsOf_eq decimal_of (Nat.lt_of_lt_of_le small (by decide)) tmp

/-- The negation of a negative integer fits into 32 bits without a sign. -/
theorem toNat_ofInt_neg {v : BitVec 32} (negative : v.toInt < 0) :
    (BitVec.ofInt 32 (-v.toInt)).toNat = v.toInt.natAbs := by
  have low := v.le_toInt
  rw [BitVec.toNat_ofInt]
  omega

theorem printSignedIn_eq (v : BitVec 32) (tmp : Nat → UInt8) :
    printSignedIn v tmp = some ((if v.toInt < 0 then [minusChar] else []) ++
      (canonicalDigits 10 v.toInt.natAbs).map digitChar) := by
  unfold printSignedIn
  by_cases negative : v.toInt < 0
  · rw [if_pos negative, if_pos negative, printNumberIn_eq, toNat_ofInt_neg negative]
    rfl
  · have same : v.toNat = v.toInt.natAbs := by
      have value := BitVec.toInt_eq_toNat_cond v
      split at value
      · omega
      · have small := v.isLt
        omega
    rw [if_neg negative, if_neg negative, printNumberIn_eq, same]
    rfl

theorem printHexPointerIn_eq (p : BitVec 64) (tmp : Nat → UInt8) :
    printHexPointerIn p tmp =
      some ([zeroChar, 120] ++ (canonicalDigits 16 p.toNat).map digitChar) := by
  have fits : p.toNat < 16 ^ 17 := Nat.lt_trans p.isLt (by decide)
  unfold printHexPointerIn
  rw [digitsOf_eq hexadecimal_of fits]
  rfl

theorem numeral_eq (base v : Nat) : numeral base v = (canonicalDigits base v).map digitChar := by
  unfold numeral canonicalDigits
  by_cases null : v = 0
  · rw [if_pos null, if_pos null]
    rfl
  · rw [if_neg null, if_neg null]

/-- Without their arrays the functions print the same characters. -/
theorem printed_without_arrays (hex : Int) (v : BitVec 32) (p : BitVec 64) (tmp : Nat → UInt8) :
    printNumberIn hex v tmp =
        some (printNumber (if hex ≠ 0 then hexadecimal else decimal) v.toNat).chars ∧
      printSignedIn v tmp = some (printSigned v.toInt).chars ∧
      printHexPointerIn p tmp = some (printHexPointer p).chars := by
  refine ⟨?_, ?_, ?_⟩
  · rw [printNumberIn_eq, ← numeral_eq]
    by_cases isHex : hex ≠ 0
    · rw [if_pos isHex, if_pos isHex, printNumber_eq hexadecimal_of v.isLt]
      rfl
    · rw [if_neg isHex, if_neg isHex, printNumber_eq decimal_of v.isLt]
      rfl
  · rw [printSignedIn_eq, ← numeral_eq, printSigned_eq]
    unfold signedNumeral
    by_cases negative : v.toInt < 0
    · rw [if_pos negative, if_pos negative]
      rfl
    · rw [if_neg negative, if_neg negative]
      rfl
  · rw [printHexPointerIn_eq, ← numeral_eq, printHexPointer_eq]
    rfl

/-- For every 32-bit number in either base, every 32-bit integer and every pointer, the call
ends, stays inside its array and sends the one canonical numeral of its argument. -/
theorem numbers_canonical :
    (∀ (hex : Int) (v : BitVec 32),
      SendsNumeral (printNumberIn hex v) [] (if hex ≠ 0 then 16 else 10) v.toNat) ∧
    (∀ v : BitVec 32, SendsNumeral (printSignedIn v) (if v.toInt < 0 then [minusChar] else []) 10
      v.toInt.natAbs) ∧
    ∀ p : BitVec 64, SendsNumeral (printHexPointerIn p) [zeroChar, 120] 16 p.toNat := by
  refine ⟨?_, ?_, ?_⟩
  · intro hex v
    have large : 1 < if hex ≠ 0 then 16 else 10 := by
      split
      · decide
      · decide
    exact sendsNumeral_of_eq large (printNumberIn_eq hex v)
  · exact fun v => sendsNumeral_of_eq (by decide) (printSignedIn_eq v)
  · exact fun p => sendsNumeral_of_eq (by decide) (printHexPointerIn_eq p)

end Functions

end Drivers
end AuraKernel
