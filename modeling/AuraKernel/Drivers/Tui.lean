import AuraKernel.Drivers.Consoles
import AuraKernel.Drivers.Vga
import Mathlib.Data.Nat.Log

namespace AuraKernel
namespace Drivers

open Machine

/-!
# The formatter of the text interface

`tui_printf_at` formats into a buffer of 81 characters on the stack and draws
what is in it.  It looks at the length of the text when it takes the next
character of the format and in the loops of its conversions.  The case for a
letter it does not know stores two characters without looking, and for a `%`
at the end of the format this letter is the NUL, which the loop then steps over.
-/

/-- How a call can go wrong: it accesses an array outside its bounds, it reads the format
behind the NUL, or it finds no argument of the type it reads. -/
inductive Fault
  | bounds
  | overrun
  | badArg
deriving DecidableEq, Repr

/-- An access that has a result, or a fault. -/
def inBounds {α : Type} : Option α → Except Fault α
  | some a => .ok a
  | none => .error .bounds

/-! ## Drawing -/

def tuiPutcAt (x y : Int) (c color : UInt8) (screen : Nat → UInt16) :
    Except Fault (Nat → UInt16) :=
  if x < 0 ∨ x ≥ vgaWidth ∨ y < 0 ∨ y ≥ vgaHeight then .ok screen
  else inBounds (storeAt vgaCells screen (y * vgaWidth + x).toNat (vgaEntry c color))

/-- `tui_puts_at` of the string in an array of `size` characters, from character `i` on: the
number of characters drawn, and the screen. -/
def tuiPutsAt (size : Nat) (str : Nat → UInt8) (y : Int) (color : UInt8) :
    Nat → Nat → Int → (Nat → UInt16) → Except Fault (Nat × (Nat → UInt16))
  | 0, _, _, _ => .error .bounds
  | fuel + 1, i, x, screen => do
      let c ← inBounds (loadAt size str i)
      if c ≠ 0 ∧ x < vgaWidth then
        let screen ← tuiPutcAt x y c color screen
        tuiPutsAt size str y color fuel (i + 1) (x + 1) screen
      else .ok (i, screen)

/-! ## Formatting -/

def bufSize : Nat := 81

def tmpSize : Nat := 12

/-- `buf` and `len` -/
structure Text where
  buf : Nat → UInt8
  len : Nat

/-- `buf[len++] = c` -/
def Text.push (c : UInt8) (text : Text) : Except Fault Text := do
  let buf ← inBounds (storeAt bufSize text.buf text.len c)
  .ok ⟨buf, text.len + 1⟩

/-- `while (*s && len < 80) buf[len++] = *s++` -/
def pushString : List UInt8 → Text → Except Fault Text
  | [], text => .ok text
  | c :: s, text =>
      if text.len < 80 then do
        let text ← text.push c
        pushString s text
      else .ok text

/-- `do { tmp[i++] = '0' + (val % 10); val /= 10; } while (val && i < 11)`, from `i` on, with
one unit of fuel for each round: the last `i`, and `tmp` -/
def digitLoop : Nat → Nat → Int → (Nat → UInt8) → Except Fault (Nat × (Nat → UInt8))
  | 0, _, _, _ => .error .bounds
  | fuel + 1, i, val, tmp => do
      let tmp ← inBounds (storeAt tmpSize tmp i (UInt8.ofInt (48 + val.tmod 10)))
      let val := val.tdiv 10
      if val ≠ 0 ∧ i + 1 < 11 then digitLoop fuel (i + 1) val tmp else .ok (i + 1, tmp)

/-- `while (i > 0 && len < 80) buf[len++] = tmp[--i]` -/
def pushDigits (tmp : Nat → UInt8) : Nat → Text → Except Fault Text
  | 0, text => .ok text
  | i + 1, text =>
      if text.len < 80 then do
        let c ← inBounds (loadAt tmpSize tmp i)
        let text ← text.push c
        pushDigits tmp i text
      else .ok text

/-- The digits of a number, through an array of any contents. -/
def pushNumber (tmp : Nat → UInt8) (val : Int) (text : Text) : Except Fault Text := do
  let (i, tmp) ← digitLoop tmpSize 0 val tmp
  pushDigits tmp i text

/-- `case 'd'`.  C gives `-val` no meaning for the most negative integer, so `negMin` is any. -/
def pushSigned (negMin : BitVec 32) (tmp : Nat → UInt8) (w : BitVec 32) (text : Text) :
    Except Fault Text :=
  if w.toInt < 0 then do
    let text ← text.push minusChar
    pushNumber tmp (if w = BitVec.intMin 32 then negMin.toInt else -w.toInt) text
  else pushNumber tmp w.toInt text

/-- The `switch` on the letter behind a `%`: the text, and the arguments left. -/
def tuiConversion (negMin : BitVec 32) (tmp : Nat → UInt8) (letter : UInt8) (args : List Arg)
    (text : Text) : Except Fault (Text × List Arg) :=
  match convOf letter, args with
  | .str, .str none :: args => .ok (text, args)
  | .str, .str (some s) :: args => do
      let text ← pushString s text
      .ok (text, args)
  | .dec, .word w :: args => do
      let text ← pushSigned negMin tmp w text
      .ok (text, args)
  | .uns, .word w :: args => do
      let text ← pushNumber tmp w.toNat text
      .ok (text, args)
  | .str, _ => .error .badArg
  | .dec, _ => .error .badArg
  | .uns, _ => .error .badArg
  | .percent, args => do
      let text ← text.push percentChar
      .ok (text, args)
  | _, args => do
      let text ← text.push percentChar
      let text ← text.push letter
      .ok (text, args)

def tuiFormat (negMin : BitVec 32) (tmp : Nat → UInt8) :
    List UInt8 → List Arg → Text → Except Fault Text
  | [], _, text => .ok text
  | c :: fmt, args, text =>
      if text.len < 80 then
        if c ≠ percentChar then do
          let text ← text.push c
          tuiFormat negMin tmp fmt args text
        else
          match fmt with
          | [] => do
              -- `p` is at the NUL, which has no case of its own, and `p++` leaves the string
              let text ← text.push percentChar
              let _ ← text.push 0
              .error .overrun
          | letter :: fmt => do
              let (text, args) ← tuiConversion negMin tmp letter args text
              tuiFormat negMin tmp fmt args text
      else .ok text

/-- What a call of `tui_printf_at` leaves: the text, the number of characters drawn, and the
screen. -/
structure Drawn where
  text : Text
  count : Nat
  screen : Nat → UInt16

/-- `tui_printf_at`, with local arrays of any contents -/
def tuiPrintfAt (negMin : BitVec 32) (x y : Int) (color : UInt8) (fmt : List UInt8)
    (args : List Arg) (buf tmp : Nat → UInt8) (screen : Nat → UInt16) : Except Fault Drawn := do
  let text ← tuiFormat negMin tmp fmt args ⟨buf, 0⟩
  let buf ← inBounds (storeAt bufSize text.buf text.len 0)
  let (count, screen) ← tuiPutsAt bufSize buf y color (bufSize + 1) 0 x screen
  .ok ⟨⟨buf, text.len⟩, count, screen⟩

/-! ## Which formats stay inside -/

/-- The conversions of `tui_printf_at`; the letters `c`, `x` and `p` are like any other. -/
def Known : Conv → Bool
  | .str => true
  | .dec => true
  | .uns => true
  | .percent => true
  | _ => false

/-- The next argument has the type that the conversion reads. -/
def TuiFits : Conv → List Arg → Bool
  | .str, .str _ :: _ => true
  | .dec, .word _ :: _ => true
  | .uns, .word _ :: _ => true
  | .str, _ => false
  | .dec, _ => false
  | .uns, _ => false
  | _, _ => true

/-- The arguments behind those of the conversion. -/
def tuiArgsAfter : Conv → List Arg → List Arg
  | .str, args => args.tail
  | .dec, args => args.tail
  | .uns, args => args.tail
  | _, args => args

/-- The arguments match the format. -/
def TuiMatching : List Piece → List Arg → Bool
  | [], _ => true
  | .conversion letter :: rest, args =>
      TuiFits (convOf letter) args && TuiMatching rest (tuiArgsAfter (convOf letter) args)
  | _ :: rest, args => TuiMatching rest args

def digitCount (val : Int) : Nat := Nat.log 10 val.natAbs + 1

/-- The length of what `%d` prints. -/
def signedWidth (negMin w : BitVec 32) : Nat :=
  if w.toInt < 0 then 1 + digitCount (if w = BitVec.intMin 32 then negMin.toInt else -w.toInt)
  else digitCount w.toInt

/-- The length of what a conversion prints. -/
def textWidth (negMin : BitVec 32) : Conv → List Arg → Nat
  | .str, .str (some s) :: _ => s.length
  | .str, _ => 0
  | .dec, .word w :: _ => signedWidth negMin w
  | .uns, .word w :: _ => digitCount w.toNat
  | .percent, _ => 1
  | _, _ => 2

/-- Until the text has 80 characters, no lone `%` is met, and no unknown conversion when it has
79 of them. -/
def StaysInside (negMin : BitVec 32) : List Piece → List Arg → Nat → Prop
  | [], _, _ => True
  | .char _ :: rest, args, fill => 80 ≤ fill ∨ StaysInside negMin rest args (fill + 1)
  | .conversion letter :: rest, args, fill =>
      80 ≤ fill ∨ ((fill = 79 → Known (convOf letter)) ∧
        StaysInside negMin rest (tuiArgsAfter (convOf letter) args)
          (fill + textWidth negMin (convOf letter) args))
  | .lone :: _, _, fill => 80 ≤ fill

/-- A call accesses its arrays and the format inside their bounds, leaves a NUL in the buffer,
and draws at most 80 characters. -/
def SafeCall (negMin : BitVec 32) (x y : Int) (color : UInt8) (fmt : List UInt8)
    (args : List Arg) : Prop :=
  ∀ buf tmp screen, ∃ drawn, tuiPrintfAt negMin x y color fmt args buf tmp screen = .ok drawn ∧
    drawn.text.len < bufSize ∧ drawn.text.buf drawn.text.len = 0 ∧ drawn.count ≤ 80

/-! ## The loops -/

section Loops

theorem ok_bind {α β : Type} (a : α) (next : α → Except Fault β) :
    (Except.ok a >>= next) = next a := rfl

variable {text : Text}

theorem Text.push_of_lt (c : UInt8) (room : text.len < bufSize) :
    text.push c = .ok ⟨Function.update text.buf text.len c, text.len + 1⟩ := by
  unfold Text.push
  rw [storeAt_of_lt room]
  rfl

/-- A text of the length that is left of `fill` characters in the buffer. -/
def Filled (result : Except Fault Text) (fill : Nat) : Prop :=
  ∃ text, result = .ok text ∧ text.len = min 80 fill

theorem pushString_filled (s : List UInt8) (room : text.len ≤ 80) :
    Filled (pushString s text) (text.len + s.length) := by
  induction s generalizing text with
  | nil => exact ⟨text, rfl, by rw [List.length_nil]; omega⟩
  | cons c s inductionHypothesis =>
      rw [pushString, List.length_cons]
      by_cases more : text.len < 80
      · rw [if_pos more, Text.push_of_lt c (by unfold bufSize; omega), ok_bind]
        rcases @inductionHypothesis ⟨Function.update text.buf text.len c, text.len + 1⟩ more with
          ⟨last, ran, len⟩
        exact ⟨last, ran, by rw [len]; dsimp only; omega⟩
      · rw [if_neg more]
        exact ⟨text, rfl, by omega⟩

theorem pushDigits_filled {tmp : Nat → UInt8} {i : Nat} (inside : i ≤ tmpSize)
    (room : text.len ≤ 80) : Filled (pushDigits tmp i text) (text.len + i) := by
  induction i generalizing text with
  | zero => exact ⟨text, rfl, by omega⟩
  | succ i inductionHypothesis =>
      rw [pushDigits]
      by_cases more : text.len < 80
      · rw [if_pos more, loadAt_of_lt inside]
        unfold inBounds
        rw [ok_bind, Text.push_of_lt _ (by unfold bufSize; omega), ok_bind]
        rcases @inductionHypothesis ⟨Function.update text.buf text.len (tmp i), text.len + 1⟩
          (Nat.le_of_succ_le inside) more with ⟨last, ran, len⟩
        exact ⟨last, ran, by rw [len]; dsimp only; omega⟩
      · rw [if_neg more]
        exact ⟨text, rfl, by omega⟩

/-- The loop stores one character for each digit. -/
theorem digitLoop_eq {fuel i : Nat} {val : Int} {tmp : Nat → UInt8}
    (few : i + digitCount val ≤ 11) (enough : tmpSize ≤ fuel + i) :
    ∃ digits, digitLoop fuel i val tmp = .ok (i + digitCount val, digits) := by
  induction fuel generalizing i val tmp with
  | zero =>
      unfold tmpSize at enough
      omega
  | succ fuel inductionHypothesis =>
      have rest : (val.tdiv 10).natAbs = val.natAbs / 10 := Int.natAbs_tdiv val 10
      have inside : i < tmpSize := by
        unfold tmpSize digitCount at *
        omega
      rw [digitLoop, storeAt_of_lt inside]
      unfold inBounds
      rw [ok_bind]
      dsimp only
      by_cases more : val.tdiv 10 = 0
      · have small : val.natAbs < 10 := by
          rw [more] at rest
          omega
        have one : digitCount val = 1 := by
          unfold digitCount
          rw [Nat.log_of_lt small]
        rw [if_neg fun both => both.1 more, one]
        exact ⟨_, rfl⟩
      · have large : 10 ≤ val.natAbs := by
          by_contra small
          refine more (Int.natAbs_eq_zero.mp ?_)
          rw [rest]
          omega
        have count : digitCount val = digitCount (val.tdiv 10) + 1 := by
          unfold digitCount
          rw [rest, Nat.log_of_one_lt_of_le (by decide) large]
        rw [if_pos ⟨more, by unfold digitCount at few count; omega⟩, count]
        rw [count] at few
        rcases @inductionHypothesis (i + 1) (val.tdiv 10) _ (by omega) (by omega) with
          ⟨digits, ran⟩
        exact ⟨digits, by rw [ran, Nat.add_right_comm, Nat.add_assoc]⟩

/-- A 32-bit number has at most ten digits. -/
theorem digitCount_le {val : Int} (small : val.natAbs < 2 ^ 32) : digitCount val ≤ 10 := by
  unfold digitCount
  have less : Nat.log 10 val.natAbs < 10 :=
    Nat.log_lt_of_lt_pow' (by decide) (Nat.lt_trans small (by decide))
  exact less

theorem pushNumber_filled (tmp : Nat → UInt8) {val : Int} (small : val.natAbs < 2 ^ 32)
    (room : text.len ≤ 80) : Filled (pushNumber tmp val text) (text.len + digitCount val) := by
  have few := digitCount_le small
  rcases @digitLoop_eq tmpSize 0 val tmp (by omega) (Nat.le_refl _) with ⟨digits, ran⟩
  unfold pushNumber
  rw [ran, ok_bind, Nat.zero_add]
  exact pushDigits_filled (by unfold tmpSize; omega) room

theorem natAbs_toInt_lt (w : BitVec 32) : w.toInt.natAbs < 2 ^ 32 := by
  have low := w.le_toInt
  have high := w.toInt_lt
  omega

theorem pushSigned_filled (negMin : BitVec 32) (tmp : Nat → UInt8) (w : BitVec 32)
    (room : text.len < 80) :
    Filled (pushSigned negMin tmp w text) (text.len + signedWidth negMin w) := by
  unfold pushSigned signedWidth
  by_cases negative : w.toInt < 0
  · have small : (if w = BitVec.intMin 32 then negMin.toInt else -w.toInt).natAbs < 2 ^ 32 := by
      split
      · exact natAbs_toInt_lt negMin
      · rw [Int.natAbs_neg]
        exact natAbs_toInt_lt w
    rw [if_pos negative, if_pos negative, Text.push_of_lt _ (by unfold bufSize; omega), ok_bind,
      ← Nat.add_assoc]
    exact @pushNumber_filled ⟨_, text.len + 1⟩ tmp _ small room
  · rw [if_neg negative, if_neg negative]
    exact pushNumber_filled tmp (natAbs_toInt_lt w) (Nat.le_of_lt room)

/-- A conversion whose argument fits adds its text, as far as there is room, or it is unknown
and adds two characters. -/
theorem tuiConversion_eq (negMin : BitVec 32) (tmp : Nat → UInt8) {letter : UInt8}
    {args : List Arg} (fits : TuiFits (convOf letter) args = true) (room : text.len < 80) :
    ∃ text', tuiConversion negMin tmp letter args text =
        .ok (text', tuiArgsAfter (convOf letter) args) ∧
      text'.len = if Known (convOf letter) then
          min 80 (text.len + textWidth negMin (convOf letter) args)
        else text.len + 2 := by
  have lift : ∀ {result : Except Fault Text} {width : Nat} {left : List Arg},
      Filled result (text.len + width) → ∃ text',
        (result >>= fun text => .ok (text, left)) = .ok (text', left) ∧
          text'.len = min 80 (text.len + width) := by
    rintro result width left ⟨text', rfl, len⟩
    exact ⟨text', rfl, len⟩
  have narrow := Nat.le_of_lt room
  have single : ∀ c, Filled (text.push c) (text.len + 1) := fun c =>
    ⟨_, Text.push_of_lt c (by unfold bufSize; omega), by dsimp only; omega⟩
  have pair : ∀ c d, ∃ text', (text.push c >>= fun text => text.push d >>= fun text =>
      Except.ok (text, args)) = .ok (text', args) ∧ text'.len = text.len + 2 := by
    intro c d
    rw [Text.push_of_lt c (by unfold bufSize; omega), ok_bind,
      Text.push_of_lt d (by unfold bufSize; dsimp only; omega), ok_bind]
    exact ⟨_, rfl, rfl⟩
  unfold tuiConversion
  generalize convOf letter = conv at fits ⊢
  cases conv with
  | percent => exact lift (single percentChar)
  | chr => exact pair percentChar letter
  | hex => exact pair percentChar letter
  | pointer => exact pair percentChar letter
  | other => exact pair percentChar letter
  | str =>
      rcases args with _ | ⟨arg, args⟩
      · cases fits
      cases arg with
      | word w => cases fits
      | ptr p => cases fits
      | str s =>
          cases s with
          | none => exact ⟨text, rfl, (Nat.min_eq_right narrow).symm⟩
          | some s => exact lift (pushString_filled s narrow)
  | uns =>
      rcases args with _ | ⟨arg, args⟩
      · cases fits
      cases arg with
      | str s => cases fits
      | ptr p => cases fits
      | word w =>
          have bound := w.isLt
          exact lift (pushNumber_filled tmp (by omega) narrow)
  | dec =>
      rcases args with _ | ⟨arg, args⟩
      · cases fits
      cases arg with
      | str s => cases fits
      | ptr p => cases fits
      | word w => exact lift (pushSigned_filled negMin tmp w room)

end Loops

/-! ## Whole formats -/

section Formats

variable {negMin : BitVec 32} {tmp : Nat → UInt8} {text : Text}

theorem tuiFormat_nil (args : List Arg) : tuiFormat negMin tmp [] args text = .ok text := by
  rw [tuiFormat.eq_def]

theorem tuiFormat_full (fmt : List UInt8) (args : List Arg) (full : 80 ≤ text.len) :
    tuiFormat negMin tmp fmt args text = .ok text := by
  cases fmt with
  | nil => exact tuiFormat_nil args
  | cons c fmt =>
      rw [tuiFormat.eq_def]
      exact if_neg (Nat.not_lt.mpr full)

theorem tuiFormat_char {c : UInt8} (plain : c ≠ percentChar) (fmt : List UInt8) (args : List Arg)
    (room : text.len < 80) :
    tuiFormat negMin tmp (c :: fmt) args text =
      tuiFormat negMin tmp fmt args ⟨Function.update text.buf text.len c, text.len + 1⟩ := by
  rw [tuiFormat.eq_def]
  dsimp only
  rw [if_pos room, if_pos plain, Text.push_of_lt c (by unfold bufSize; omega), ok_bind]

theorem tuiFormat_lone {c : UInt8} (percent : ¬ c ≠ percentChar) (args : List Arg)
    (room : text.len < 80) : tuiFormat negMin tmp [c] args text = .error .overrun := by
  rw [tuiFormat, if_pos room, if_neg percent, Text.push_of_lt _ (by unfold bufSize; omega), ok_bind,
    Text.push_of_lt _ (by unfold bufSize; dsimp only; omega), ok_bind]

theorem tuiFormat_conversion {c : UInt8} (percent : ¬ c ≠ percentChar) (letter : UInt8)
    (fmt : List UInt8) (args : List Arg) (room : text.len < 80) :
    tuiFormat negMin tmp (c :: letter :: fmt) args text =
      (tuiConversion negMin tmp letter args text >>= fun result =>
        tuiFormat negMin tmp fmt result.2 result.1) := by
  rw [tuiFormat, if_pos room, if_neg percent]

theorem textWidth_unknown {conv : Conv} (unknown : ¬ Known conv) (args : List Arg) :
    textWidth negMin conv args = 2 := by
  cases conv with
  | str => exact absurd rfl unknown
  | dec => exact absurd rfl unknown
  | uns => exact absurd rfl unknown
  | percent => exact absurd rfl unknown
  | chr => rfl
  | hex => rfl
  | pointer => rfl
  | other => rfl

/-- How the loop over the format ends, where `inside` says whether the format stays inside: the
text fits, or the format is left, or the text takes the whole buffer and leaves no room for
the NUL. -/
inductive Formatted (inside : Prop) : Except Fault Text → Prop
  | fits (holds : inside) (text : Text) (len : text.len ≤ 80) : Formatted inside (.ok text)
  | overrun (fails : ¬ inside) : Formatted inside (.error .overrun)
  | filled (fails : ¬ inside) (text : Text) (len : text.len = 81) : Formatted inside (.ok text)

theorem Formatted.congr {inside inside' : Prop} {result : Except Fault Text}
    (formatted : Formatted inside result) (same : inside' ↔ inside) : Formatted inside' result := by
  rw [propext same]
  exact formatted

theorem tuiFormat_formatted (fmt : List UInt8) {args : List Arg} {fill : Nat}
    (fits : TuiMatching (pieces fmt) args = true) (len : text.len = min 80 fill) :
    Formatted (StaysInside negMin (pieces fmt) args fill) (tuiFormat negMin tmp fmt args text) := by
  induction fmt using pieces.induct generalizing args fill text with
  | case1 =>
      rw [tuiFormat_nil]
      exact Formatted.fits trivial text (by omega)
  | case2 c fmt plain inductionHypothesis =>
      rw [pieces_char plain] at fits ⊢
      by_cases room : text.len < 80
      · rw [tuiFormat_char plain fmt args room]
        exact (inductionHypothesis fits (by dsimp only; omega)).congr (or_iff_right (by omega))
      · rw [tuiFormat_full _ _ (Nat.not_lt.mp room)]
        exact Formatted.fits (Or.inl (by omega)) text (by omega)
  | case3 c percent =>
      rw [pieces, if_neg percent]
      by_cases room : text.len < 80
      · rw [tuiFormat_lone percent args room]
        refine Formatted.overrun fun full => ?_
        change 80 ≤ fill at full
        omega
      · rw [tuiFormat_full _ _ (Nat.not_lt.mp room)]
        exact Formatted.fits (show 80 ≤ fill by omega) text (by omega)
  | case4 c percent letter fmt inductionHypothesis =>
      rw [pieces, if_neg percent] at fits ⊢
      have both := Bool.and_eq_true_iff.mp fits
      by_cases room : text.len < 80
      · rcases tuiConversion_eq negMin tmp both.1 room with ⟨text', ran, len'⟩
        rw [tuiFormat_conversion percent letter fmt args room, ran, ok_bind]
        have further : StaysInside negMin (.conversion letter :: pieces fmt) args fill ↔
            (fill = 79 → Known (convOf letter)) ∧
              StaysInside negMin (pieces fmt) (tuiArgsAfter (convOf letter) args)
                (fill + textWidth negMin (convOf letter) args) := or_iff_right (by omega)
        have same : text.len = fill := by omega
        rw [same] at len'
        by_cases known : Known (convOf letter)
        · rw [if_pos known] at len'
          refine (inductionHypothesis both.2 len').congr ?_
          rw [further]
          exact and_iff_right fun _ => known
        · rw [if_neg known] at len'
          by_cases last : fill = 79
          · rw [tuiFormat_full fmt _ (by dsimp only; omega)]
            exact Formatted.filled (fun holds => known ((further.mp holds).1 last)) text' (by omega)
          · have width := @textWidth_unknown negMin _ known args
            refine (inductionHypothesis both.2
              (show text'.len = min 80 (fill + textWidth negMin (convOf letter) args) by omega)).congr
              ?_
            rw [further]
            exact and_iff_right fun isLast => absurd isLast last
      · rw [tuiFormat_full _ _ (Nat.not_lt.mp room)]
        exact Formatted.fits (Or.inl (by omega)) text (by omega)

/-! ## Drawing -/

theorem tuiPutcAt_ok (x y : Int) (c color : UInt8) (screen : Nat → UInt16) :
    ∃ screen', tuiPutcAt x y c color screen = .ok screen' := by
  unfold tuiPutcAt
  by_cases outside : x < 0 ∨ x ≥ vgaWidth ∨ y < 0 ∨ y ≥ vgaHeight
  · rw [if_pos outside]
    exact ⟨screen, rfl⟩
  · rw [if_neg outside]
    have bound : (y * vgaWidth + x).toNat < vgaCells := by
      unfold vgaWidth vgaHeight vgaCells at *
      omega
    rw [storeAt_of_lt bound]
    exact ⟨_, rfl⟩

/-- Drawing ends at the NUL. -/
theorem tuiPutsAt_ok {str : Nat → UInt8} {y : Int} {color : UInt8} {length fuel i : Nat}
    (short : length < bufSize) (closed : str length = 0) (le : i ≤ length)
    (enough : length < fuel + i) (x : Int) (screen : Nat → UInt16) :
    ∃ count screen', tuiPutsAt bufSize str y color fuel i x screen = .ok (count, screen') ∧
      count ≤ length := by
  induction fuel generalizing i x screen with
  | zero => omega
  | succ fuel inductionHypothesis =>
      rw [tuiPutsAt, loadAt_of_lt (Nat.lt_of_le_of_lt le short)]
      unfold inBounds
      rw [ok_bind]
      by_cases more : str i ≠ 0 ∧ x < vgaWidth
      · rcases tuiPutcAt_ok x y (str i) color screen with ⟨next, ran⟩
        have before : i < length := by
          refine Nat.lt_of_le_of_ne le fun same => more.1 ?_
          rw [same]
          exact closed
        rw [if_pos more, ran, ok_bind]
        exact inductionHypothesis before (by omega) (x + 1) next
      · rw [if_neg more]
        exact ⟨i, screen, rfl, le⟩

/-- For every format and all arguments that match it, the call is safe if and only if, until the
text has 80 characters, no lone `%` is met, and no unknown conversion at 79 characters. -/
theorem tuiPrintfAt_safe_iff (negMin : BitVec 32) (x y : Int) (color : UInt8) (fmt : List UInt8)
    {args : List Arg} (fits : TuiMatching (pieces fmt) args = true) :
    SafeCall negMin x y color fmt args ↔ StaysInside negMin (pieces fmt) args 0 := by
  have formatted : ∀ buf tmp, Formatted (StaysInside negMin (pieces fmt) args 0)
      (tuiFormat negMin tmp fmt args ⟨buf, 0⟩) := fun buf tmp => tuiFormat_formatted fmt fits rfl
  constructor
  · intro safe
    rcases safe (fun _ => 0) (fun _ => 0) (fun _ => 0) with ⟨drawn, ran, _⟩
    unfold tuiPrintfAt at ran
    have ended := formatted (fun _ => 0) (fun _ => 0)
    generalize tuiFormat negMin _ fmt args _ = result at ended ran
    cases ended with
    | fits holds _ _ => exact holds
    | overrun _ => cases ran
    | filled _ text len =>
        rw [ok_bind, storeAt_eq_none (by unfold bufSize; omega)] at ran
        cases ran
  · intro inside buf tmp screen
    unfold tuiPrintfAt
    have ended := formatted buf tmp
    generalize tuiFormat negMin tmp fmt args ⟨buf, 0⟩ = result at ended ⊢
    cases ended with
    | fits _ text len =>
        have short : text.len < bufSize := Nat.lt_succ_of_le len
        have closed : Function.update text.buf text.len 0 text.len = 0 := Function.update_self ..
        rw [ok_bind, storeAt_of_lt short]
        unfold inBounds
        rw [ok_bind]
        rcases @tuiPutsAt_ok _ y color _ (bufSize + 1) 0 short closed (Nat.zero_le _)
          (by unfold bufSize; omega) x screen with ⟨count, screen', ran, le⟩
        rw [ran, ok_bind]
        exact ⟨_, rfl, short, closed, Nat.le_trans le len⟩
    | overrun fails => exact absurd inside fails
    | filled fails _ _ => exact absurd inside fails

end Formats

/-- The format "%s: %d%%" -/
theorem tuiPrintfAt_safe_iff_small :
    SafeCall (BitVec.intMin 32) 2 3 7 [37, 115, 58, 32, 37, 100, 37, 37]
      [.str (some [67, 80, 85]), .word (-42)] := by
  refine (tuiPrintfAt_safe_iff _ 2 3 7 _ (by decide)).mpr ?_
  have width : signedWidth (BitVec.intMin 32) (-42) = 3 := by
    unfold signedWidth
    rw [if_pos (by decide), if_neg (by decide)]
    decide
  refine Or.inr ⟨fun _ => rfl, Or.inr (Or.inr (Or.inr ⟨fun _ => rfl, Or.inr ⟨fun _ => rfl, ?_⟩⟩))⟩
  exact trivial

/-- 79 characters and "%x" -/
def fullLine : List UInt8 := List.replicate 79 spaceChar ++ [percentChar, 120]

/-- Two calls that are not safe: behind 79 characters the unknown conversion "%x" takes the
rest of the buffer, and the NUL is stored outside; behind a lone "%" the format is left. -/
theorem not_safeCall :
    tuiPrintfAt 0 0 0 7 fullLine [.word 1] (fun _ => 0) (fun _ => 0) (fun _ => 0) =
        .error .bounds ∧
      ¬ SafeCall 0 0 0 7 fullLine [.word 1] ∧
      tuiPrintfAt 0 0 0 7 [percentChar] [] (fun _ => 0) (fun _ => 0) (fun _ => 0) =
        .error .overrun ∧
      ¬ SafeCall 0 0 0 7 [percentChar] [] := by
  have length : (tuiFormat 0 (fun _ => 0) fullLine [.word 1] ⟨fun _ => 0, 0⟩).map Text.len =
      .ok 81 := by
    decide +kernel
  have outside : tuiPrintfAt 0 0 0 7 fullLine [.word 1] (fun _ => 0) (fun _ => 0) (fun _ => 0) =
      .error .bounds := by
    unfold tuiPrintfAt
    generalize tuiFormat 0 _ fullLine [.word 1] _ = result at length ⊢
    cases result with
    | error fault => cases length
    | ok text =>
        have behind : bufSize ≤ text.len := Nat.le_of_eq (Except.ok.inj length).symm
        rw [ok_bind, storeAt_eq_none behind]
        rfl
  have left : tuiPrintfAt 0 0 0 7 [percentChar] [] (fun _ => 0) (fun _ => 0) (fun _ => 0) =
      .error .overrun := rfl
  have unsafeOutside : ¬ SafeCall 0 0 0 7 fullLine [.word 1] := by
    intro safe
    rcases safe (fun _ => 0) (fun _ => 0) (fun _ => 0) with ⟨drawn, ran, _⟩
    rw [outside] at ran
    cases ran
  have unsafeLeft : ¬ SafeCall 0 0 0 7 [percentChar] [] := by
    intro safe
    rcases safe (fun _ => 0) (fun _ => 0) (fun _ => 0) with ⟨drawn, ran, _⟩
    rw [left] at ran
    cases ran
  exact ⟨outside, unsafeOutside, left, unsafeLeft⟩

end Drivers
end AuraKernel
