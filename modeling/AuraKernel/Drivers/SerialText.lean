import AuraKernel.Drivers.Consoles
import Mathlib.Data.Nat.Digits.Defs

namespace AuraKernel
namespace Drivers

/-!
# What is sent over the serial line

The header of the serial driver promises that a newline is sent as a carriage
return and a newline.  `serial_putc` waits until the transmitter is empty and
writes its argument to the data register as it is.  The bytes that
`serial_printf` sends are therefore the text that the format describes, with
every newline bare.
-/

/-! ## The port -/

def regData : UInt16 := 0

def lsrThre : UInt8 := 32

/-- A UART: what the line status register reads at each access, how often it has been read,
and the bytes written to ports. -/
structure Uart where
  status : Nat → UInt8
  reads : Nat
  writes : List (UInt16 × UInt8)

/-- `inb` of the line status register -/
def Uart.readStatus (uart : Uart) : UInt8 × Uart :=
  (uart.status uart.reads, { uart with reads := uart.reads + 1 })

def Uart.outb (port : UInt16) (val : UInt8) (uart : Uart) : Uart :=
  { uart with writes := uart.writes ++ [(port, val)] }

/-- `serial_putc`, for at most `fuel` reads of the line status register -/
def serialPutc (port : UInt16) (c : UInt8) : Nat → Uart → Option Uart
  | 0, _ => none
  | fuel + 1, uart =>
      let (status, uart) := uart.readStatus
      if status &&& lsrThre = 0 then serialPutc port c fuel uart
      else some (uart.outb (port + regData) c)

/-- The characters that are handed to `serial_putc`, one after another. -/
def serialSend (port : UInt16) (fuel : Nat) : List UInt8 → Uart → Option Uart
  | [], uart => some uart
  | c :: chars, uart => (serialPutc port c fuel uart).bind (serialSend port fuel chars)

/-- A call of `serial_printf` on a port. -/
def serialPrintfOn (port : UInt16) (fuel : Nat) (fmt : List UInt8) (args : List Arg)
    (uart : Uart) : Option Uart :=
  if (serialPrintf fmt args).ending = .returns then
    serialSend port fuel (serialPrintf fmt args).chars uart
  else none

/-- The transmitter is empty again and again. -/
def Uart.Drains (uart : Uart) : Prop := ∀ n, ∃ m ≥ n, uart.status m &&& lsrThre ≠ 0

/-! ## The reference -/

/-- The character of a digit, in lower case. -/
def digitChar (digit : Nat) : UInt8 :=
  if digit < 10 then zeroChar + UInt8.ofNat digit else 87 + UInt8.ofNat digit

/-- A number without leading zeros. -/
def numeral (base n : Nat) : List UInt8 :=
  if n = 0 then [zeroChar] else (Nat.digits base n).reverse.map digitChar

def signedNumeral (v : Int) : List UInt8 :=
  if v < 0 then minusChar :: numeral 10 v.natAbs else numeral 10 v.natAbs

/-- What a conversion stands for. -/
def renderConversion : Conv → List Arg → List UInt8
  | .str, .str s :: _ => s.getD nullText
  | .dec, .word w :: _ => signedNumeral w.toInt
  | .uns, .word w :: _ => numeral 10 w.toNat
  | .hex, .word w :: _ => numeral 16 w.toNat
  | .pointer, .ptr p :: _ => zeroChar :: 120 :: numeral 16 p.toNat
  | .chr, .word w :: _ => [UInt8.ofNat w.toNat]
  | .percent, _ => [percentChar]
  | _, _ => []

def render : List Piece → List Arg → List UInt8
  | [], _ => []
  | .char c :: rest, args => c :: render rest args
  | .conversion letter :: rest, args =>
      renderConversion (convOf letter) args ++ render rest (argsAfter (convOf letter) args)
  | .lone :: rest, args => render rest args

def lineFeed : UInt8 := 10
def returnChar : UInt8 := 13

/-- Every newline becomes a carriage return and a newline. -/
def expandNewlines (text : List UInt8) : List UInt8 :=
  text.flatMap fun c => if c = lineFeed then [returnChar, lineFeed] else [c]

/-- The next argument has the type that the conversion reads; an unknown letter fits nothing. -/
def SerialFits : Conv → List Arg → Bool
  | .str, .str _ :: _ => true
  | .chr, .word _ :: _ => true
  | .dec, .word _ :: _ => true
  | .uns, .word _ :: _ => true
  | .hex, .word _ :: _ => true
  | .pointer, .ptr _ :: _ => true
  | .percent, _ => true
  | _, _ => false

/-- The format consists of characters and supported conversions, and the arguments match it. -/
def SerialMatching : List Piece → List Arg → Bool
  | [], _ => true
  | .char _ :: rest, args => SerialMatching rest args
  | .conversion letter :: rest, args =>
      SerialFits (convOf letter) args && SerialMatching rest (argsAfter (convOf letter) args)
  | .lone :: _, _ => false

/-- The argument of the conversion is a string with a newline, or a newline. -/
def TakesNewline : Conv → List Arg → Prop
  | .str, .str (some s) :: _ => lineFeed ∈ s
  | .chr, .word w :: _ => UInt8.ofNat w.toNat = lineFeed
  | _, _ => False

/-- There is a newline among the characters of the format, in a string or as a character. -/
def HasNewline : List Piece → List Arg → Prop
  | [], _ => False
  | .char c :: rest, args => c = lineFeed ∨ HasNewline rest args
  | .conversion letter :: rest, args =>
      TakesNewline (convOf letter) args ∨ HasNewline rest (argsAfter (convOf letter) args)
  | .lone :: rest, args => HasNewline rest args

/-- The call sends `bytes` to the data register, and nothing else. -/
def Sends (port : UInt16) (fmt : List UInt8) (args : List Arg) (uart : Uart)
    (bytes : List UInt8) : Prop :=
  ∃ fuel, ∀ more, fuel ≤ more → ∃ uart', serialPrintfOn port more fmt args uart = some uart' ∧
    uart'.writes = uart.writes ++ bytes.map ((port + regData, ·))

/-- What the header promises: the text of the format with its newlines expanded. -/
def MeetsContract (port : UInt16) (fmt : List UInt8) (args : List Arg) : Prop :=
  ∀ uart : Uart, uart.Drains → Sends port fmt args uart (expandNewlines (render (pieces fmt) args))

/-! ## Numerals -/

section Numerals

/-- The radix divides by its base, and its digits are those of the reference. -/
structure Radix.Of (radix : Radix) (base : Nat) : Prop where
  large : 1 < base
  last_eq : ∀ val, radix.last val = digitChar (val % base)
  rest_eq : ∀ val, radix.rest val = val / base

theorem decimal_of : decimal.Of 10 where
  large := by decide
  last_eq := by
    intro val
    have less := Nat.mod_lt val (by decide : 10 > 0)
    unfold digitChar
    rw [if_pos less]
    rfl
  rest_eq _ := rfl

theorem hexadecimal_of : hexadecimal.Of 16 where
  large := by decide
  last_eq := by
    intro val
    have digit : val &&& 0xF = val % 16 := Nat.and_two_pow_sub_one_eq_mod val 4
    change (if val &&& 0xF < 10 then _ else _) = _
    rw [digit]
    rfl
  rest_eq val := Nat.shiftRight_eq_div_pow val 4

variable {radix : Radix} {base : Nat}

/-- The loop stores the digits, the last one first. -/
theorem serialDigits_eq (isRadix : radix.Of base) {fuel val : Nat} (small : val < 2 ^ fuel) :
    serialDigits radix (fuel + 1) val = some ((Nat.digits base val).map digitChar) := by
  have large := isRadix.large
  induction fuel generalizing val with
  | zero =>
      have null : val = 0 := by omega
      rw [null, serialDigits, if_neg (not_not.mpr rfl), Nat.digits_zero]
      rfl
  | succ fuel inductionHypothesis =>
      rw [serialDigits]
      by_cases null : val = 0
      · rw [null, if_neg (not_not.mpr rfl), Nat.digits_zero]
        rfl
      · have positive := Nat.pos_of_ne_zero null
        have smaller : val / base < 2 ^ fuel := by
          refine Nat.div_lt_of_lt_mul (Nat.lt_of_lt_of_le small ?_)
          rw [Nat.pow_succ, Nat.mul_comm]
          exact Nat.mul_le_mul_right _ large
        rw [if_pos null, isRadix.rest_eq, inductionHypothesis smaller, isRadix.last_eq,
          Nat.digits_def' large positive]
        rfl

theorem printNumber_eq (isRadix : radix.Of base) {val : Nat} (small : val < 2 ^ 32) :
    printNumber radix val = puts (numeral base val) := by
  unfold printNumber numeral digitFuel
  by_cases null : val = 0
  · rw [if_pos null, if_pos null]
  · rw [if_neg null, if_neg null, serialDigits_eq isRadix small, List.map_reverse]
    rfl

theorem printSigned_eq (w : BitVec 32) : printSigned w.toInt = puts (signedNumeral w.toInt) := by
  have low := w.le_toInt
  have high := w.toInt_lt
  unfold printSigned signedNumeral
  by_cases negative : w.toInt < 0
  · have magnitude : (-w.toInt).toNat = w.toInt.natAbs := by omega
    rw [if_pos negative, if_pos negative, magnitude, printNumber_eq decimal_of (by omega)]
    rfl
  · have magnitude : w.toInt.toNat = w.toInt.natAbs := by omega
    rw [if_neg negative, if_neg negative, magnitude, printNumber_eq decimal_of (by omega)]

theorem printHexPointer_eq (p : BitVec 64) :
    printHexPointer p = puts (zeroChar :: 120 :: numeral 16 p.toNat) := by
  unfold printHexPointer numeral
  by_cases null : p.toNat = 0
  · rw [if_pos null, if_pos null]
    rfl
  · rw [if_neg null, if_neg null, serialDigits_eq hexadecimal_of p.isLt, List.map_reverse]
    rfl

end Numerals

/-! ## The text -/

theorem printString_eq (s : Option (List UInt8)) : printString s = puts (s.getD nullText) := by
  cases s with
  | none => rfl
  | some s => rfl

/-- A conversion prints what it stands for. -/
theorem serialConversion_eq {letter : UInt8} {args : List Arg}
    (fits : SerialFits (convOf letter) args = true) :
    serialConversion letter args =
      (puts (renderConversion (convOf letter) args), argsAfter (convOf letter) args) := by
  unfold serialConversion
  generalize convOf letter = conv at fits ⊢
  unfold SerialFits at fits
  split at fits
  case h_1 s args => exact congrArg (·, args) (printString_eq s)
  case h_2 w args => rfl
  case h_3 w args => exact congrArg (·, args) (printSigned_eq w)
  case h_4 w args => exact congrArg (·, args) (printNumber_eq decimal_of w.isLt)
  case h_5 w args => exact congrArg (·, args) (printNumber_eq hexadecimal_of w.isLt)
  case h_6 p args => exact congrArg (·, args) (printHexPointer_eq p)
  case h_7 => rfl
  case h_8 => exact absurd fits Bool.false_ne_true

/-- The characters handed to `serial_putc` are the text of the format. -/
theorem serialPrintf_eq_render (fmt : List UInt8) {args : List Arg}
    (fits : SerialMatching (pieces fmt) args = true) :
    serialPrintf fmt args = puts (render (pieces fmt) args) := by
  induction fmt using pieces.induct generalizing args with
  | case1 => rfl
  | case2 c fmt plain inductionHypothesis =>
      rw [pieces_char plain] at fits ⊢
      rw [serialPrintf_char plain, inductionHypothesis fits]
      rfl
  | case3 c percent =>
      rw [pieces, if_neg percent] at fits
      cases fits
  | case4 c percent letter fmt inductionHypothesis =>
      rw [pieces, if_neg percent] at fits ⊢
      have both := Bool.and_eq_true_iff.mp fits
      rw [serialPrintf, if_neg percent, serialConversion_eq both.1, inductionHypothesis both.2]
      rfl

/-! ## Sending -/

section Sending

variable {port : UInt16}

/-- While the transmitter is full the status is read again. -/
theorem serialPutc_sends (c : UInt8) {uart : Uart} (drains : uart.Drains) :
    ∃ fuel reads, ∀ more, fuel ≤ more → serialPutc port c more uart =
      some { uart with reads := reads, writes := uart.writes ++ [(port + regData, c)] } := by
  rcases drains uart.reads with ⟨m, later, ready⟩
  rcases Nat.exists_eq_add_of_le later with ⟨wait, place⟩
  induction wait generalizing uart with
  | zero =>
      refine ⟨1, uart.reads + 1, fun more enough => ?_⟩
      rcases Nat.exists_eq_add_of_le' enough with ⟨rest, rfl⟩
      rw [serialPutc]
      dsimp only [Uart.readStatus]
      rw [if_neg (by rw [← show m = uart.reads from place]; exact ready)]
      rfl
  | succ wait inductionHypothesis =>
      rcases @inductionHypothesis { uart with reads := uart.reads + 1 } drains
        (by dsimp only; omega) ready (by dsimp only; omega) with ⟨fuel, reads, sends⟩
      by_cases empty : uart.status uart.reads &&& lsrThre = 0
      · refine ⟨fuel + 1, reads, fun more enough => ?_⟩
        rcases Nat.exists_eq_add_of_le' enough with ⟨rest, rfl⟩
        rw [← Nat.add_assoc, serialPutc]
        dsimp only [Uart.readStatus]
        rw [if_pos empty]
        exact sends (rest + fuel) (Nat.le_add_left fuel rest)
      · refine ⟨1, uart.reads + 1, fun more enough => ?_⟩
        rcases Nat.exists_eq_add_of_le' enough with ⟨rest, rfl⟩
        rw [serialPutc]
        dsimp only [Uart.readStatus]
        rw [if_neg empty]
        rfl

/-- A text is sent byte by byte, and the status register keeps its readings. -/
theorem serialSend_sends (chars : List UInt8) {uart : Uart} (drains : uart.Drains) :
    ∃ fuel, ∀ more, fuel ≤ more → ∃ uart', serialSend port more chars uart = some uart' ∧
      uart'.writes = uart.writes ++ chars.map ((port + regData, ·)) := by
  induction chars generalizing uart with
  | nil => exact ⟨0, fun more _ => ⟨uart, rfl, (List.append_nil _).symm⟩⟩
  | cons c chars inductionHypothesis =>
      rcases @serialPutc_sends port c uart drains with ⟨first, reads, putc⟩
      rcases @inductionHypothesis
        { uart with reads := reads, writes := uart.writes ++ [(port + regData, c)] } drains
        with ⟨others, send⟩
      refine ⟨max first others, fun more enough => ?_⟩
      rcases send more (Nat.le_trans (Nat.le_max_right _ _) enough) with ⟨uart', sent, written⟩
      refine ⟨uart', ?_, ?_⟩
      · rw [serialSend, putc more (Nat.le_trans (Nat.le_max_left _ _) enough)]
        exact sent
      · rw [written, List.append_assoc]
        rfl

variable {fmt : List UInt8} {args : List Arg} {uart : Uart}

/-- The text of the format is sent as it is. -/
theorem sends_render (fits : SerialMatching (pieces fmt) args = true) (drains : uart.Drains) :
    Sends port fmt args uart (render (pieces fmt) args) := by
  rcases @serialSend_sends port (render (pieces fmt) args) uart drains with ⟨fuel, send⟩
  refine ⟨fuel, fun more enough => ?_⟩
  rcases send more enough with ⟨uart', sent, written⟩
  refine ⟨uart', ?_, written⟩
  unfold serialPrintfOn
  rw [serialPrintf_eq_render fmt fits]
  exact (if_pos rfl).trans sent

theorem Sends.unique {bytes others : List UInt8} (sends : Sends port fmt args uart bytes)
    (sendsOthers : Sends port fmt args uart others) : bytes = others := by
  rcases sends with ⟨fuel, sends⟩
  rcases sendsOthers with ⟨fuel', sendsOthers⟩
  rcases sends _ (Nat.le_max_left fuel fuel') with ⟨uart', result, written⟩
  rcases sendsOthers _ (Nat.le_max_right fuel fuel') with ⟨uart'', result', written'⟩
  have same : uart' = uart'' := Option.some.inj (result.symm.trans result')
  rw [← same, written] at written'
  refine List.map_injective_iff.mpr ?_ (List.append_cancel_left written')
  exact fun c d equal => congrArg Prod.snd equal

end Sending

/-! ## Newlines -/

/-- The expansion grows by one byte at every newline. -/
theorem length_expandNewlines (text : List UInt8) :
    (expandNewlines text).length = text.length + text.count lineFeed := by
  induction text with
  | nil => rfl
  | cons c text inductionHypothesis =>
      change ((if c = lineFeed then [returnChar, lineFeed] else [c])
        ++ expandNewlines text).length = _
      rw [List.length_append, inductionHypothesis, List.count_cons, List.length_cons]
      by_cases newline : c = lineFeed
      · rw [if_pos newline, if_pos (beq_iff_eq.mpr newline)]
        change 2 + _ = _
        omega
      · rw [if_neg newline, if_neg (fun equal => newline (beq_iff_eq.mp equal))]
        change 1 + _ = _
        omega

/-- The expansion changes nothing exactly where there is no newline. -/
theorem expandNewlines_eq_self_iff {text : List UInt8} :
    expandNewlines text = text ↔ lineFeed ∉ text := by
  constructor
  · intro equal
    have lengths := length_expandNewlines text
    rw [equal] at lengths
    exact List.count_eq_zero.mp (by omega)
  · intro none
    induction text with
    | nil => rfl
    | cons c text inductionHypothesis =>
        have apart := List.ne_and_not_mem_of_not_mem_cons none
        change (if c = lineFeed then _ else [c]) ++ expandNewlines text = _
        rw [if_neg apart.1.symm, inductionHypothesis apart.2]
        rfl

theorem digitChar_ne_lineFeed {digit : Nat} (small : digit < 16) :
    digitChar digit ≠ lineFeed := by
  revert digit
  decide

theorem lineFeed_notMem_numeral {base : Nat} (large : 1 < base) (small : base ≤ 16) (n : Nat) :
    lineFeed ∉ numeral base n := by
  unfold numeral
  by_cases null : n = 0
  · rw [if_pos null]
    decide
  · rw [if_neg null]
    intro among
    rcases List.mem_map.mp among with ⟨digit, isDigit, equal⟩
    have less := Nat.digits_lt_base large (List.mem_reverse.mp isDigit)
    exact digitChar_ne_lineFeed (Nat.lt_of_lt_of_le less small) equal

theorem lineFeed_notMem_signedNumeral (v : Int) : lineFeed ∉ signedNumeral v := by
  have none := lineFeed_notMem_numeral (by decide : 1 < 10) (by decide) v.natAbs
  unfold signedNumeral
  by_cases negative : v < 0
  · rw [if_pos negative]
    exact List.not_mem_cons_of_ne_of_not_mem (by decide) none
  · rw [if_neg negative]
    exact none

/-- A conversion prints a newline only from a string or as a character. -/
theorem lineFeed_mem_renderConversion {conv : Conv} {args : List Arg}
    (fits : SerialFits conv args = true) :
    lineFeed ∈ renderConversion conv args ↔ TakesNewline conv args := by
  unfold SerialFits at fits
  split at fits
  case h_1 s args =>
    cases s with
    | none => exact iff_of_false (show lineFeed ∉ nullText by decide) id
    | some s => exact Iff.rfl
  case h_2 w args => exact List.mem_singleton.trans eq_comm
  case h_3 w args => exact iff_of_false (lineFeed_notMem_signedNumeral _) id
  case h_4 w args => exact iff_of_false (lineFeed_notMem_numeral (by decide) (by decide) _) id
  case h_5 w args => exact iff_of_false (lineFeed_notMem_numeral (by decide) (by decide) _) id
  case h_6 p args =>
    have none := lineFeed_notMem_numeral (by decide : 1 < 16) (by decide) p.toNat
    refine iff_of_false (fun among => ?_) id
    rcases List.mem_cons.mp among with equal | among
    · exact absurd equal (by decide)
    · rcases List.mem_cons.mp among with equal | among
      · exact absurd equal (by decide)
      · exact none among
  case h_7 => exact iff_of_false (show lineFeed ∉ [percentChar] by decide) id
  case h_8 => exact absurd fits Bool.false_ne_true

/-- The text has a newline exactly where the format or an argument brings one. -/
theorem lineFeed_mem_render {format : List Piece} {args : List Arg}
    (fits : SerialMatching format args = true) :
    lineFeed ∈ render format args ↔ HasNewline format args := by
  induction format generalizing args with
  | nil => exact iff_of_false List.not_mem_nil id
  | cons piece format inductionHypothesis =>
      cases piece with
      | char c => exact List.mem_cons.trans (or_congr eq_comm (inductionHypothesis fits))
      | conversion letter =>
          have both := Bool.and_eq_true_iff.mp fits
          exact List.mem_append.trans
            (or_congr (lineFeed_mem_renderConversion both.1) (inductionHypothesis both.2))
      | lone => cases fits

/-! ## The contract -/

/-- A UART whose transmitter is always empty. -/
def emptyUart : Uart where
  status _ := lsrThre
  reads := 0
  writes := []

theorem emptyUart_drains : emptyUart.Drains := by
  intro n
  have ready : lsrThre &&& lsrThre ≠ 0 := by decide
  exact ⟨n, Nat.le_refl n, ready⟩

/-- For every port, every format and all arguments that match it, the header's promise is kept
exactly where no newline is sent: `serial_putc` sends the byte that it is given, and nobody puts
a carriage return in front of a newline. -/
theorem meetsContract_iff (port : UInt16) (fmt : List UInt8) (args : List Arg)
    (fits : SerialMatching (pieces fmt) args = true) :
    MeetsContract port fmt args ↔ ¬ HasNewline (pieces fmt) args := by
  rw [← lineFeed_mem_render fits, ← expandNewlines_eq_self_iff]
  constructor
  · intro meets
    exact (meets _ emptyUart_drains).unique (sends_render fits emptyUart_drains)
  · intro equal uart drains
    rw [equal]
    exact sends_render fits drains

/-- `"%d %s"` with the least number and a null string. -/
theorem meetsContract_iff_small :
    MeetsContract 0x3F8 [37, 100, 32, 37, 115] [.word (BitVec.intMin 32), .str none] ↔
      ¬ HasNewline (pieces [37, 100, 32, 37, 115]) [.word (BitVec.intMin 32), .str none] :=
  meetsContract_iff 0x3F8 [37, 100, 32, 37, 115] [.word (BitVec.intMin 32), .str none] (by decide)

/-- `"\n"` is sent as a bare newline on `COM1`. -/
theorem not_meetsContract_newline :
    SerialMatching (pieces [lineFeed]) [] = true ∧ ¬ MeetsContract 0x3F8 [lineFeed] [] := by
  refine ⟨by decide, fun meets => ?_⟩
  rcases meets _ emptyUart_drains with ⟨fuel, sends⟩
  rcases sends (fuel + 1) (Nat.le_succ fuel) with ⟨uart', result, written⟩
  have bare : uart'.writes = [(0x3F8, lineFeed)] := by
    rw [← Option.some.inj result]
    rfl
  rw [bare] at written
  exact absurd written (by decide)

end Drivers
end AuraKernel
