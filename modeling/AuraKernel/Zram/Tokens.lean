import AuraKernel.Zram.Codec

namespace AuraKernel
namespace Zram

open Machine

/-!
# The token stream of a page

The compressor cuts a page into runs of zeros, runs of one byte and literal
blocks.  Where it cuts depends on the page alone: a buffer that is too small
only makes it give up.  `pageTokens` states these cuts without reference to the
buffer or to indices, and the loops of `zram_compress_page` are shown to
follow them.  What the tokens stand for (`expand`) and how they are written
(`encode`) are then two functions of the same list.
-/

/-- A piece of a page, as the compressor cuts it. -/
inductive Token
  | zeros (count : Nat)
  | run (count : Nat) (val : UInt8)
  | literal (bytes : List UInt8)
deriving DecidableEq, Repr

namespace Token

def kind : Token → TokenKind
  | zeros _ => .zeros
  | run _ _ => .run
  | literal _ => .literal

/-- The bytes of the page a token stands for. -/
def expand : Token → List UInt8
  | zeros count => List.replicate count 0
  | run count val => List.replicate count val
  | literal bytes => bytes

/-- The tag byte the compressor writes in front of a token. -/
def tag : Token → UInt8
  | zeros _ => zramTagZeros
  | run _ _ => zramTagRun
  | literal bytes => zramTagLiteral ||| UInt8.ofNat (bytes.length &&& 0x7F)

/-- The bytes the compressor writes for a token. -/
def encode : Token → List UInt8
  | zeros count => [zramTagZeros, UInt8.ofNat count]
  | run count val => [zramTagRun, UInt8.ofNat count, val]
  | literal bytes => tag (literal bytes) :: bytes

/-- The number of bytes written for a token. -/
def size (token : Token) : Nat := token.encode.length

/-- A literal block so short that its length byte is one of the other tags. -/
def Short : Token → Prop
  | literal bytes => bytes.length = 1 ∨ bytes.length = 2
  | _ => False

/-- What the compressor emits: runs within the counter byte and long enough to
pay off, literal blocks of 1 to 127 bytes. -/
def WellFormed : Token → Prop
  | zeros count => 4 ≤ count ∧ count ≤ 255
  | run count val => 6 ≤ count ∧ count ≤ 255 ∧ val ≠ 0
  | literal bytes => 1 ≤ bytes.length ∧ bytes.length ≤ 127

end Token

/-! ## Cutting a page -/

/-- The length of the leading run of `val`. -/
def prefixLen (val : UInt8) (rest : List UInt8) : Nat :=
  (rest.takeWhile (fun byte => byte = val)).length

/-- The length of the literal block at the head of `rest`: it ends after
`budget` bytes, at the page end, or before four zeros that are not the last
four bytes of the page. -/
def litSpan : Nat → List UInt8 → Nat
  | 0, _ => 0
  | _ + 1, [] => 0
  | budget + 1, byte :: rest =>
      if 4 < (byte :: rest).length ∧ 4 ≤ prefixLen 0 (byte :: rest) then 0
      else litSpan budget rest + 1

/-- The leading zeros counted by the first test of the compressor. -/
def zeroRun (val : UInt8) (rest : List UInt8) : Nat :=
  if val = 0 then min 255 (prefixLen 0 rest) else 0

/-- The first token of the nonempty page rest `val :: tail`. -/
def nextToken (val : UInt8) (tail : List UInt8) : Token :=
  if 4 ≤ zeroRun val (val :: tail) then .zeros (zeroRun val (val :: tail))
  else if 6 ≤ min 255 (prefixLen val (val :: tail)) then
    .run (min 255 (prefixLen val (val :: tail))) val
  else .literal ((val :: tail).take (litSpan 127 (val :: tail)))

/-- The tokens of a page rest, at most `fuel` of them. -/
def tokensFrom : Nat → List UInt8 → List Token
  | 0, _ => []
  | _ + 1, [] => []
  | fuel + 1, val :: tail =>
      nextToken val tail ::
        tokensFrom fuel ((val :: tail).drop (nextToken val tail).expand.length)

def pageTokens (src : List UInt8) : List Token := tokensFrom src.length src

/-! ## Lengths -/

@[simp] theorem prefixLen_nil (val : UInt8) : prefixLen val [] = 0 := rfl

theorem prefixLen_cons_of_eq (val : UInt8) (rest : List UInt8) :
    prefixLen val (val :: rest) = prefixLen val rest + 1 := by
  simp [prefixLen]

theorem prefixLen_cons_of_ne {val byte : UInt8} (different : byte ≠ val) (rest : List UInt8) :
    prefixLen val (byte :: rest) = 0 := by
  simp [prefixLen, different]

/-- The leading run really consists of `val`. -/
theorem take_prefixLen {val : UInt8} {rest : List UInt8} {count : Nat}
    (le : count ≤ prefixLen val rest) : rest.take count = List.replicate count val := by
  induction rest generalizing count with
  | nil =>
      have zero : count = 0 := Nat.le_zero.mp le
      subst zero
      rfl
  | cons byte rest inductionHypothesis =>
      cases count with
      | zero => rfl
      | succ count =>
          by_cases same : byte = val
          · subst same
            rw [prefixLen_cons_of_eq] at le
            rw [List.take_succ_cons, List.replicate_succ, inductionHypothesis (by omega)]
          · rw [prefixLen_cons_of_ne same] at le
            omega

theorem litSpan_le (budget : Nat) (rest : List UInt8) :
    litSpan budget rest ≤ budget ∧ litSpan budget rest ≤ rest.length := by
  induction budget generalizing rest with
  | zero => exact ⟨Nat.le_refl _, Nat.zero_le _⟩
  | succ budget inductionHypothesis =>
      cases rest with
      | nil => exact ⟨Nat.zero_le _, Nat.le_refl _⟩
      | cons byte rest =>
          have tail := inductionHypothesis rest
          rw [litSpan]
          split
          · exact ⟨Nat.zero_le _, Nat.zero_le _⟩
          · simp only [List.length_cons]
            omega

/-- A smaller cap only truncates the block. -/
theorem litSpan_min {smaller budget : Nat} (le : smaller ≤ budget) (rest : List UInt8) :
    litSpan smaller rest = min smaller (litSpan budget rest) := by
  induction smaller generalizing budget rest with
  | zero => simp [litSpan]
  | succ smaller inductionHypothesis =>
      cases budget with
      | zero => omega
      | succ budget =>
          cases rest with
          | nil => simp [litSpan]
          | cons byte rest =>
              rw [litSpan, litSpan]
              split
              · simp
              · rw [inductionHypothesis (Nat.le_of_succ_le_succ le) rest]
                omega

/-- When the zero test failed, the literal loop takes its first byte. -/
theorem litSpan_pos {budget : Nat} {val : UInt8} {tail : List UInt8} (positive : 0 < budget)
    (notZeros : ¬ 4 ≤ zeroRun val (val :: tail)) : 0 < litSpan budget (val :: tail) := by
  cases budget with
  | zero => omega
  | succ budget =>
      rw [litSpan]
      by_cases stop : 4 < (val :: tail).length ∧ 4 ≤ prefixLen 0 (val :: tail)
      · exfalso
        apply notZeros
        unfold zeroRun
        by_cases zero : val = 0
        · rw [if_pos zero]
          omega
        · rw [prefixLen_cons_of_ne zero] at stop
          omega
      · rw [if_neg stop]
        exact Nat.succ_pos _

/-! ## Tokens of a page -/

theorem nextToken_wellFormed (val : UInt8) (tail : List UInt8) :
    (nextToken val tail).WellFormed := by
  unfold nextToken
  by_cases zeros : 4 ≤ zeroRun val (val :: tail)
  · rw [if_pos zeros]
    refine ⟨zeros, ?_⟩
    unfold zeroRun
    split <;> omega
  · rw [if_neg zeros]
    by_cases run : 6 ≤ min 255 (prefixLen val (val :: tail))
    · rw [if_pos run]
      refine ⟨run, Nat.min_le_left _ _, ?_⟩
      intro zero
      subst zero
      unfold zeroRun at zeros
      rw [if_pos rfl] at zeros
      omega
    · rw [if_neg run]
      have positive : 0 < litSpan 127 (val :: tail) := litSpan_pos (by decide) zeros
      have bounds := litSpan_le 127 (val :: tail)
      simp only [Token.WellFormed, List.length_take]
      omega

/-- A token stands for a leading piece of the rest of the page. -/
theorem nextToken_expand (val : UInt8) (tail : List UInt8) :
    (nextToken val tail).expand = (val :: tail).take (nextToken val tail).expand.length := by
  unfold nextToken
  by_cases zeros : 4 ≤ zeroRun val (val :: tail)
  · rw [if_pos zeros]
    unfold zeroRun at zeros ⊢
    by_cases zero : val = 0
    · rw [if_pos zero]
      simp only [Token.expand, List.length_replicate]
      exact (take_prefixLen (Nat.min_le_right _ _)).symm
    · rw [if_neg zero] at zeros
      omega
  · rw [if_neg zeros]
    by_cases run : 6 ≤ min 255 (prefixLen val (val :: tail))
    · rw [if_pos run]
      simp only [Token.expand, List.length_replicate]
      exact (take_prefixLen (Nat.min_le_right _ _)).symm
    · rw [if_neg run]
      simp only [Token.expand, List.length_take]
      rw [Nat.min_eq_left (litSpan_le 127 (val :: tail)).2]

theorem nextToken_expand_pos (val : UInt8) (tail : List UInt8) :
    0 < (nextToken val tail).expand.length := by
  have wellFormed := nextToken_wellFormed val tail
  cases token : nextToken val tail with
  | zeros count =>
      rw [token] at wellFormed
      simp only [Token.WellFormed] at wellFormed
      simp only [Token.expand, List.length_replicate]
      omega
  | run count byte =>
      rw [token] at wellFormed
      simp only [Token.WellFormed] at wellFormed
      simp only [Token.expand, List.length_replicate]
      omega
  | literal bytes =>
      rw [token] at wellFormed
      exact wellFormed.1

/-- The tokens of a page rest stand for all of it. -/
theorem expand_tokensFrom {fuel : Nat} {rest : List UInt8} (enough : rest.length ≤ fuel) :
    (tokensFrom fuel rest).flatMap Token.expand = rest := by
  induction fuel generalizing rest with
  | zero =>
      have empty : rest = [] := List.length_eq_zero_iff.mp (Nat.le_zero.mp enough)
      subst empty
      rfl
  | succ fuel inductionHypothesis =>
      cases rest with
      | nil => rfl
      | cons val tail =>
          have positive := nextToken_expand_pos val tail
          rw [tokensFrom, List.flatMap_cons, inductionHypothesis, nextToken_expand,
            List.length_take]
          · have shorter : min (nextToken val tail).expand.length (val :: tail).length =
                (nextToken val tail).expand.length := by
              have length := congrArg List.length (nextToken_expand val tail)
              rw [List.length_take] at length
              exact length.symm
            rw [shorter, List.take_append_drop]
          · rw [List.length_drop]
            omega

theorem expand_pageTokens (src : List UInt8) : (pageTokens src).flatMap Token.expand = src :=
  expand_tokensFrom (Nat.le_refl _)

/-- Once the fuel covers the rest, more of it changes nothing. -/
theorem tokensFrom_fuel {first second : Nat} {rest : List UInt8} (enough : rest.length ≤ first)
    (le : first ≤ second) : tokensFrom second rest = tokensFrom first rest := by
  induction first generalizing second rest with
  | zero =>
      have empty : rest = [] := List.length_eq_zero_iff.mp (Nat.le_zero.mp enough)
      subst empty
      cases second <;> rfl
  | succ first inductionHypothesis =>
      cases second with
      | zero => omega
      | succ second =>
          cases rest with
          | nil => rfl
          | cons val tail =>
              have positive := nextToken_expand_pos val tail
              rw [tokensFrom, tokensFrom, inductionHypothesis _ (Nat.le_of_succ_le_succ le)]
              rw [List.length_drop]
              omega

end Zram
end AuraKernel
