import AuraKernel.Drivers.Printf

namespace AuraKernel
namespace Drivers

/-!
# Two consoles, one text

The two interpreters print the same characters as long as `vga_printf` stays
inside the format and inside the integers.  It leaves the format when a lone
`%` ends it, and the integers when it negates the most negative one.
-/

inductive Piece
  | char (c : UInt8)
  | conversion (letter : UInt8)
  | lone
deriving DecidableEq, Repr

def pieces : List UInt8 → List Piece
  | [] => []
  | c :: fmt =>
      if c ≠ percentChar then .char c :: pieces fmt
      else
        match fmt with
        | [] => [.lone]
        | letter :: fmt => .conversion letter :: pieces fmt

/-- The next argument has the type that the conversion reads.  `%p`, which only one of the
interpreters knows, fits nothing. -/
def Fits : Conv → List Arg → Bool
  | .str, .str _ :: _ => true
  | .chr, .word _ :: _ => true
  | .dec, .word _ :: _ => true
  | .uns, .word _ :: _ => true
  | .hex, .word _ :: _ => true
  | .percent, _ => true
  | .other, _ => true
  | _, _ => false

/-- The arguments behind those of the conversion. -/
def argsAfter : Conv → List Arg → List Arg
  | .percent, args => args
  | .other, args => args
  | _, args => args.tail

/-- The arguments match the format. -/
def Matching : List Piece → List Arg → Bool
  | [], _ => true
  | .conversion letter :: rest, args =>
      Fits (convOf letter) args && Matching rest (argsAfter (convOf letter) args)
  | _ :: rest, args => Matching rest args

/-- The conversion is `%d` and its argument the most negative integer. -/
def NegatesMin (conv : Conv) (args : List Arg) : Prop :=
  conv = .dec ∧ args.head? = some (.word (BitVec.intMin 32))

/-- Some `%d` of the format gets the most negative integer. -/
def PrintsMin : List Piece → List Arg → Prop
  | [], _ => False
  | .conversion letter :: rest, args =>
      NegatesMin (convOf letter) args ∨ PrintsMin rest (argsAfter (convOf letter) args)
  | _ :: rest, args => PrintsMin rest args

/-- Both calls return and have printed the same characters. -/
structure SameText (vga serial : Printed) : Prop where
  chars : vga.chars = serial.chars
  vga_returns : vga.ending = .returns
  serial_returns : serial.ending = .returns

/-! ## Digits -/

section Digits

variable {radix : Radix}

/-- For a number with few digits both loops store the same characters; for 0 the second
one stores none. -/
theorem digits_eq (shrinks : ∀ val, radix.rest val ≤ val / 2) {fuel val : Nat}
    (small : val < 2 ^ fuel) :
    ∃ digits, vgaDigits radix (fuel + 1) val = some digits ∧
      (val ≠ 0 → serialDigits radix (fuel + 1) val = some digits) ∧
      (val = 0 → digits = [radix.last 0]) := by
  induction fuel generalizing val with
  | zero =>
      have null : val = 0 := by omega
      have none : radix.rest 0 = 0 := Nat.le_zero.mp (shrinks 0)
      subst null
      refine ⟨[radix.last 0], ?_, fun nonzero => absurd rfl nonzero, fun _ => rfl⟩
      rw [vgaDigits, if_neg (not_not.mpr none)]
  | succ fuel inductionHypothesis =>
      have shorter := shrinks val
      rw [Nat.pow_succ] at small
      by_cases more : radix.rest val = 0
      · refine ⟨[radix.last val], ?_, fun nonzero => ?_, fun null => null ▸ rfl⟩
        · rw [vgaDigits, if_neg (not_not.mpr more)]
        · rw [serialDigits, if_pos nonzero, more, serialDigits, if_neg (not_not.mpr rfl)]
          rfl
      · rcases inductionHypothesis (show radix.rest val < 2 ^ fuel by omega) with
          ⟨digits, vga, serial, _⟩
        refine ⟨radix.last val :: digits, ?_, fun nonzero => ?_, fun null => by omega⟩
        · rw [vgaDigits, if_pos more, vga]
          rfl
        · rw [serialDigits, if_pos nonzero, serial more]
          rfl

/-- The two ways to print a 32-bit number agree. -/
theorem putDigits_eq (shrinks : ∀ val, radix.rest val ≤ val / 2)
    (zero : radix.last 0 = zeroChar) {val : Nat} (small : val < 2 ^ 32) :
    putDigits (vgaDigits radix digitFuel val) = printNumber radix val ∧
      (printNumber radix val).ending = .returns := by
  rcases digits_eq shrinks small with ⟨digits, vga, serial, null⟩
  unfold printNumber digitFuel
  rw [vga]
  by_cases isZero : val = 0
  · rw [if_pos isZero, null isZero, zero]
    exact ⟨rfl, rfl⟩
  · rw [if_neg isZero, serial isZero]
    exact ⟨rfl, rfl⟩

end Digits

theorem decimal_shrinks (val : Nat) : decimal.rest val ≤ val / 2 := by
  change val / 10 ≤ val / 2
  omega

theorem hexadecimal_shrinks (val : Nat) : hexadecimal.rest val ≤ val / 2 := by
  change val >>> 4 ≤ val / 2
  rw [Nat.shiftRight_eq_div_pow]
  omega

/-! ## Conversions -/

theorem returns_andThen {before after : Printed} (returned : before.ending = .returns) :
    before.andThen after = ⟨before.chars ++ after.chars, after.ending⟩ :=
  if_pos returned

theorem ended_andThen {before after : Printed} (ended : before.ending ≠ .returns) :
    before.andThen after = before :=
  if_neg ended

/-- `%d` agrees except for the most negative integer, where the first interpreter overflows. -/
theorem signed_cases (w : BitVec 32) :
    (printSigned w.toInt).ending = .returns ∧
      (w = BitVec.intMin 32 ∧ (vgaSigned w.toInt).ending = .overflow ∨
        w ≠ BitVec.intMin 32 ∧ vgaSigned w.toInt = printSigned w.toInt) := by
  have low := w.le_toInt
  have high := w.toInt_lt
  have isMin : w = BitVec.intMin 32 ↔ w.toInt = -2 ^ 31 := by
    rw [← BitVec.toInt_inj]
    exact Iff.rfl
  unfold vgaSigned printSigned
  by_cases negative : w.toInt < 0
  · rw [if_pos negative, if_pos negative, returns_andThen rfl, returns_andThen rfl]
    have digits := @putDigits_eq decimal decimal_shrinks rfl (-w.toInt).toNat (by omega)
    refine ⟨digits.2, ?_⟩
    by_cases least : w.toInt = -2 ^ 31
    · rw [if_pos least]
      exact Or.inl ⟨isMin.mpr least, rfl⟩
    · rw [if_neg least, digits.1]
      exact Or.inr ⟨fun same => least (isMin.mp same), rfl⟩
  · rw [if_neg negative, if_neg negative]
    have digits := @putDigits_eq decimal decimal_shrinks rfl w.toInt.toNat (by omega)
    refine ⟨digits.2, Or.inr ⟨?_, digits.1⟩⟩
    intro same
    have least := isMin.mp same
    omega

/-- What the two interpreters do with one conversion whose argument fits. -/
inductive ConversionAgrees (letter : UInt8) (args : List Arg) : Prop
  | same (vga : vgaConversion letter args = serialConversion letter args)
      (returned : (serialConversion letter args).1.ending = .returns)
      (left : (serialConversion letter args).2 = argsAfter (convOf letter) args)
      (small : ¬ NegatesMin (convOf letter) args) : ConversionAgrees letter args
  | overflow (ended : (vgaConversion letter args).1.ending = .overflow)
      (least : NegatesMin (convOf letter) args) : ConversionAgrees letter args

theorem conversionAgrees {letter : UInt8} {args : List Arg}
    (fits : Fits (convOf letter) args = true) : ConversionAgrees letter args := by
  have notDec : ∀ {conv : Conv}, conv ≠ .dec → ¬ NegatesMin conv args :=
    fun different least => different least.1
  unfold Fits at fits
  split at fits
  case h_1 s args conv =>
    refine ConversionAgrees.same ?_ ?_ ?_ (notDec (by rw [conv]; decide))
    all_goals simp only [vgaConversion, serialConversion, conv, printString, argsAfter]
    all_goals cases s
    all_goals rfl
  case h_2 w args conv =>
    refine ConversionAgrees.same ?_ ?_ ?_ (notDec (by rw [conv]; decide))
    all_goals simp only [vgaConversion, serialConversion, conv, argsAfter]
    all_goals rfl
  case h_3 w args conv =>
    rcases signed_cases w with ⟨returned, ⟨least, ended⟩ | ⟨other, same⟩⟩
    · refine ConversionAgrees.overflow ?_ ⟨conv, congrArg (some ∘ Arg.word) least⟩
      simp only [vgaConversion, conv]
      exact ended
    · refine ConversionAgrees.same ?_ ?_ ?_ ?_
      · simp only [vgaConversion, serialConversion, conv, same]
      · simp only [serialConversion, conv]
        exact returned
      · simp only [serialConversion, conv, argsAfter, List.tail_cons]
      · rintro ⟨_, least⟩
        exact other (Arg.word.inj (Option.some.inj least))
  case h_4 w args conv =>
    have digits := @putDigits_eq decimal decimal_shrinks rfl w.toNat w.isLt
    refine ConversionAgrees.same ?_ ?_ ?_ (notDec (by rw [conv]; decide))
    all_goals simp only [vgaConversion, serialConversion, conv, argsAfter, List.tail_cons, digits]
  case h_5 w args conv =>
    have digits := @putDigits_eq hexadecimal hexadecimal_shrinks rfl w.toNat w.isLt
    refine ConversionAgrees.same ?_ ?_ ?_ (notDec (by rw [conv]; decide))
    all_goals simp only [vgaConversion, serialConversion, conv, argsAfter, List.tail_cons, digits]
  case h_6 conv =>
    refine ConversionAgrees.same ?_ ?_ ?_ (notDec (by rw [conv]; decide))
    all_goals simp only [vgaConversion, serialConversion, conv, argsAfter]
    all_goals rfl
  case h_7 conv =>
    refine ConversionAgrees.same ?_ ?_ ?_ (notDec (by rw [conv]; decide))
    all_goals simp only [vgaConversion, serialConversion, conv, argsAfter]
    all_goals rfl
  case h_8 => exact absurd fits Bool.false_ne_true

/-! ## Whole formats -/

section Literals

variable {c : UInt8} (plain : c ≠ percentChar) (fmt : List UInt8) (args : List Arg)

include plain

theorem pieces_char : pieces (c :: fmt) = .char c :: pieces fmt := by
  rw [pieces.eq_def]
  exact if_pos plain

theorem vgaPrintf_char :
    vgaPrintf (c :: fmt) args = (puts [c]).andThen (vgaPrintf fmt args) := by
  rw [vgaPrintf.eq_def]
  exact if_pos plain

theorem serialPrintf_char :
    serialPrintf (c :: fmt) args = (puts [c]).andThen (serialPrintf fmt args) := by
  rw [serialPrintf.eq_def]
  exact if_pos plain

end Literals

theorem sameText_andThen {before vga serial : Printed} (returned : before.ending = .returns) :
    SameText (before.andThen vga) (before.andThen serial) ↔ SameText vga serial := by
  rw [returns_andThen returned, returns_andThen returned]
  constructor
  · rintro ⟨chars, vgaReturns, serialReturns⟩
    exact ⟨List.append_cancel_left chars, vgaReturns, serialReturns⟩
  · rintro ⟨chars, vgaReturns, serialReturns⟩
    exact ⟨congrArg (before.chars ++ ·) chars, vgaReturns, serialReturns⟩

/-- For every format without `%p` and all arguments that match it, the two interpreters
return and print the same text if and only if no lone `%` ends the format and no `%d`
gets the most negative integer. -/
theorem sameText_iff (fmt : List UInt8) {args : List Arg}
    (fits : Matching (pieces fmt) args = true) :
    SameText (vgaPrintf fmt args) (serialPrintf fmt args) ↔
      .lone ∉ pieces fmt ∧ ¬ PrintsMin (pieces fmt) args := by
  induction fmt using pieces.induct generalizing args with
  | case1 => exact iff_of_true ⟨rfl, rfl, rfl⟩ ⟨List.not_mem_nil, id⟩
  | case2 c fmt plain inductionHypothesis =>
      rw [pieces_char plain] at fits ⊢
      rw [vgaPrintf_char plain, serialPrintf_char plain, sameText_andThen rfl,
        inductionHypothesis fits]
      simp [PrintsMin]
  | case3 c percent =>
      rw [pieces, if_neg percent, vgaPrintf, if_neg percent]
      refine iff_of_false ?_ ?_
      · rintro ⟨_, returned, _⟩
        exact absurd returned (by decide)
      · exact fun holds => holds.1 (List.mem_singleton_self _)
  | case4 c percent letter fmt inductionHypothesis =>
      rw [pieces, if_neg percent] at fits ⊢
      rw [vgaPrintf, if_neg percent, serialPrintf, if_neg percent]
      have both := Bool.and_eq_true_iff.mp fits
      have split : (.lone ∉ Piece.conversion letter :: pieces fmt) ↔ .lone ∉ pieces fmt := by
        simp
      rw [split]
      cases conversionAgrees both.1 with
      | same vga returned left small =>
          simp only [vga, left]
          rw [sameText_andThen returned, inductionHypothesis both.2]
          exact and_congr_right fun _ => not_congr (or_iff_right small).symm
      | overflow ended least =>
          refine iff_of_false ?_ fun holds => holds.2 (Or.inl least)
          rw [ended_andThen (by rw [ended]; decide)]
          rintro ⟨_, returned, _⟩
          rw [ended] at returned
          exact absurd returned (by decide)

/-- A format with four conversions. -/
theorem sameText_iff_small :
    -- "%d %s%c%%" with -7, NULL and 'A'
    SameText (vgaPrintf [37, 100, 32, 37, 115, 37, 99, 37, 37] [.word (-7), .str none, .word 65])
      (serialPrintf [37, 100, 32, 37, 115, 37, 99, 37, 37] [.word (-7), .str none, .word 65]) := by
  refine (sameText_iff _ (by decide)).mpr ⟨by decide, ?_⟩
  rintro (least | str | chr | percent | nil)
  · exact absurd least.2 (by decide)
  · exact absurd str.1 (by decide)
  · exact absurd chr.1 (by decide)
  · exact absurd percent.1 (by decide)
  · exact nil

/-- The format "%" makes `vga_printf` print a NUL and read behind the format, and "%d" with the
most negative integer makes it overflow. -/
theorem not_sameText :
    (vgaPrintf [37] []).ending = .overrun ∧ (vgaPrintf [37] []).chars = [37, 0] ∧
      serialPrintf [37] [] = puts [37] ∧
      ¬ SameText (vgaPrintf [37] []) (serialPrintf [37] []) ∧
      (vgaPrintf [37, 100] [.word (BitVec.intMin 32)]).ending = .overflow ∧
      -- -2147483648
      serialPrintf [37, 100] [.word (BitVec.intMin 32)] =
        puts [45, 50, 49, 52, 55, 52, 56, 51, 54, 52, 56] ∧
      ¬ SameText (vgaPrintf [37, 100] [.word (BitVec.intMin 32)])
        (serialPrintf [37, 100] [.word (BitVec.intMin 32)]) := by
  have lone : ¬ SameText (vgaPrintf [37] []) (serialPrintf [37] []) :=
    fun same => absurd same.vga_returns (by decide)
  have least : ¬ SameText (vgaPrintf [37, 100] [.word (BitVec.intMin 32)])
      (serialPrintf [37, 100] [.word (BitVec.intMin 32)]) :=
    fun same => absurd same.vga_returns (by decide)
  exact ⟨by decide, by decide, by decide, lone, by decide, by decide, least⟩

end Drivers
end AuraKernel
