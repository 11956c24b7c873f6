import Mathlib.Data.BitVec

namespace AuraKernel
namespace Drivers

/-!
# The two format interpreters

`vga_printf` and `serial_printf` were written separately.  Each is a function
here from a format and its arguments to the characters it hands to `vga_putc`
or `serial_putc`, together with how it ends.  A pointer into a C string is the
list of the characters from there up to the NUL, so the NUL is the empty list,
and what is behind the NUL cannot be named.
-/

/-- An argument as it is passed: a string or NULL, a 32-bit integer, or a pointer. -/
inductive Arg
  | str (s : Option (List UInt8))
  | word (w : BitVec 32)
  | ptr (p : BitVec 64)
deriving DecidableEq, Repr

/-- How a call ends.  It returns; it reads the format behind the NUL; it negates the most
negative `int`, which C gives no meaning; it finds no argument of the type it reads; or
the digit loop has run out of fuel. -/
inductive Ending
  | returns
  | overrun
  | overflow
  | badArg
  | fuel
deriving DecidableEq, Repr

/-- The characters that are printed, and how the call ends. -/
structure Printed where
  chars : List UInt8
  ending : Ending
deriving DecidableEq, Repr

/-- Characters printed on the way. -/
def puts (chars : List UInt8) : Printed := ⟨chars, .returns⟩

/-- What is printed next, if the call has not ended. -/
def Printed.andThen (before after : Printed) : Printed :=
  if before.ending = .returns then ⟨before.chars ++ after.chars, after.ending⟩ else before

def percentChar : UInt8 := 37
def minusChar : UInt8 := 45
def zeroChar : UInt8 := 48

def nullText : List UInt8 := [40, 110, 117, 108, 108, 41]

/-- The letters behind a `%` that the interpreters know. -/
inductive Conv
  | str
  | chr
  | dec
  | uns
  | hex
  | pointer
  | percent
  | other
deriving DecidableEq, Repr

def convOf (letter : UInt8) : Conv :=
  if letter = 115 then .str
  else if letter = 99 then .chr
  else if letter = 100 then .dec
  else if letter = 117 then .uns
  else if letter = 120 then .hex
  else if letter = 112 then .pointer
  else if letter = percentChar then .percent
  else .other

/-! ## Digits -/

/-- What a digit loop does with a number: the character of its last digit, and the
number without it. -/
structure Radix where
  last : Nat → UInt8
  rest : Nat → Nat

/-- `'0' + (val % 10)` and `val /= 10` -/
def decimal : Radix where
  last val := zeroChar + UInt8.ofNat (val % 10)
  rest val := val / 10

/-- `"0123456789abcdef"[val & 0xF]` and `val >>= 4` -/
def hexadecimal : Radix where
  last val :=
    let digit := val &&& 0xF
    if digit < 10 then zeroChar + UInt8.ofNat digit else 87 + UInt8.ofNat digit
  rest val := val >>> 4

/-- `do { buf[i++] = ..; val = ..; } while (val)` -/
def vgaDigits (radix : Radix) : Nat → Nat → Option (List UInt8)
  | 0, _ => none
  | fuel + 1, val =>
      if radix.rest val ≠ 0 then
        (vgaDigits radix fuel (radix.rest val)).map (radix.last val :: ·)
      else some [radix.last val]

/-- `while (v != 0) { tmp[i++] = ..; v = ..; }` -/
def serialDigits (radix : Radix) : Nat → Nat → Option (List UInt8)
  | 0, _ => none
  | fuel + 1, v =>
      if v ≠ 0 then (serialDigits radix fuel (radix.rest v)).map (radix.last v :: ·) else some []

/-- `while (i > 0) putc(buf[--i])` -/
def putDigits (digits : Option (List UInt8)) : Printed :=
  match digits with
  | some digits => puts digits.reverse
  | none => ⟨[], .fuel⟩

/-- There are at most 32 digits of a 32-bit value, and one more round of the second loop. -/
def digitFuel : Nat := 33

/-! ## vga_printf -/

/-- `case 'd'` of `vga_printf` -/
def vgaSigned (val : Int) : Printed :=
  if val < 0 then
    (puts [minusChar]).andThen
      (if val = -2 ^ 31 then ⟨[], .overflow⟩
      else putDigits (vgaDigits decimal digitFuel (-val).toNat))
  else putDigits (vgaDigits decimal digitFuel val.toNat)

/-- The `switch` of `vga_printf` on the letter behind the `%`: what it prints, and the
arguments left. -/
def vgaConversion (letter : UInt8) (args : List Arg) : Printed × List Arg :=
  match convOf letter, args with
  | .str, .str s :: args => (puts (s.getD nullText), args)
  | .chr, .word w :: args => (puts [UInt8.ofNat w.toNat], args)
  | .dec, .word w :: args => (vgaSigned w.toInt, args)
  | .uns, .word w :: args => (putDigits (vgaDigits decimal digitFuel w.toNat), args)
  | .hex, .word w :: args => (putDigits (vgaDigits hexadecimal digitFuel w.toNat), args)
  | .percent, args => (puts [percentChar], args)
  | .pointer, args => (puts [percentChar, letter], args)
  | .other, args => (puts [percentChar, letter], args)
  | _, args => (⟨[], .badArg⟩, args)

def vgaPrintf : List UInt8 → List Arg → Printed
  | [], _ => puts []
  | c :: fmt, args =>
      if c ≠ percentChar then (puts [c]).andThen (vgaPrintf fmt args)
      else
        match fmt with
        -- `p` is at the NUL, which has no case of its own, and `p++` leaves the string
        | [] => ⟨[percentChar, 0], .overrun⟩
        | letter :: fmt =>
            (vgaConversion letter args).1.andThen (vgaPrintf fmt (vgaConversion letter args).2)

/-! ## serial_printf -/

/-- `print_number`: `hex` is the choice of the radix. -/
def printNumber (radix : Radix) (v : Nat) : Printed :=
  if v = 0 then puts [zeroChar] else putDigits (serialDigits radix digitFuel v)

/-- `print_signed`, which negates in 64 bits -/
def printSigned (v : Int) : Printed :=
  if v < 0 then (puts [minusChar]).andThen (printNumber decimal (-v).toNat)
  else printNumber decimal v.toNat

def printString (s : Option (List UInt8)) : Printed :=
  match s with
  | none => puts nullText
  | some s => puts s

def printHexPointer (p : BitVec 64) : Printed :=
  (puts [zeroChar, 120]).andThen
    (if p.toNat = 0 then puts [zeroChar] else putDigits (serialDigits hexadecimal 65 p.toNat))

/-- The `switch` of `serial_printf` on a letter that is not the NUL. -/
def serialConversion (letter : UInt8) (args : List Arg) : Printed × List Arg :=
  match convOf letter, args with
  | .str, .str s :: args => (printString s, args)
  | .dec, .word w :: args => (printSigned w.toInt, args)
  | .uns, .word w :: args => (printNumber decimal w.toNat, args)
  | .hex, .word w :: args => (printNumber hexadecimal w.toNat, args)
  | .pointer, .ptr p :: args => (printHexPointer p, args)
  | .chr, .word w :: args => (puts [UInt8.ofNat w.toNat], args)
  | .percent, args => (puts [percentChar], args)
  | .other, args => (puts [percentChar, letter], args)
  | _, args => (⟨[], .badArg⟩, args)

/-- `serial_printf` with a format that is not NULL -/
def serialPrintf : List UInt8 → List Arg → Printed
  | [], _ => puts []
  | c :: fmt, args =>
      if c ≠ percentChar then (puts [c]).andThen (serialPrintf fmt args)
      else
        match fmt with
        -- trailing lone '%'
        | [] => puts [percentChar]
        | letter :: fmt =>
            (serialConversion letter args).1.andThen
              (serialPrintf fmt (serialConversion letter args).2)

end Drivers
end AuraKernel
