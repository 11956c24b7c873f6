import AuraKernel.Zram.Decoder

namespace AuraKernel
namespace Zram

open Machine

/-!
# Which pages survive the codec

A literal block of one or two bytes is read back as a run.  Most pages with
such a block are corrupted, but not all: the misreading can write the same
bytes, or the padding at the page end can make up for it.  `Restorable` lists
these cases, and the round trip holds for exactly the pages it describes.
-/

/-! ## Short literal blocks -/

/-- A literal block that ends early ends before four zeros. -/
theorem litSpan_stop {budget : Nat} {rest : List UInt8} (early : litSpan budget rest < budget)
    (inside : litSpan budget rest < rest.length) :
    4 ≤ prefixLen 0 (rest.drop (litSpan budget rest)) := by
  induction budget generalizing rest with
  | zero => omega
  | succ budget inductionHypothesis =>
      cases rest with
      | nil => simp at inside
      | cons byte rest =>
          rw [litSpan] at early inside ⊢
          by_cases stop : 4 < (byte :: rest).length ∧ 4 ≤ prefixLen 0 (byte :: rest)
          · rw [if_pos stop]
            exact stop.2
          · rw [if_neg stop] at early inside ⊢
            rw [List.drop_succ_cons]
            rw [List.length_cons] at inside
            exact inductionHypothesis (by omega) (by omega)

/-- Four leading zeros are a zeros token. -/
theorem nextToken_zeros {val : UInt8} {tail : List UInt8}
    (zeros : 4 ≤ prefixLen 0 (val :: tail)) :
    nextToken val tail = .zeros (min 255 (prefixLen 0 (val :: tail))) := by
  have zero : val = 0 := by
    by_contra different
    rw [prefixLen_cons_of_ne different] at zeros
    omega
  have counted : zeroRun val (val :: tail) = min 255 (prefixLen 0 (val :: tail)) := if_pos zero
  rw [nextToken, counted, if_pos (by omega)]

/-- The four zeros spelled out. -/
theorem pageTokens_zeros {rest : List UInt8} (zeros : 4 ≤ prefixLen 0 rest) :
    (∃ more, rest = 0 :: 0 :: 0 :: 0 :: more) ∧
      ∃ count tokens, pageTokens rest = .zeros (count + 4) :: tokens := by
  constructor
  · refine ⟨rest.drop 4, ?_⟩
    calc
      rest = rest.take 4 ++ rest.drop 4 := (List.take_append_drop 4 rest).symm
      _ = 0 :: 0 :: 0 :: 0 :: rest.drop 4 := by
        rw [take_prefixLen zeros]
        rfl
  · cases rest with
    | nil => simp at zeros
    | cons val tail =>
        rw [pageTokens_cons, nextToken_zeros zeros]
        refine ⟨min 255 (prefixLen 0 (val :: tail)) - 4, ?_⟩
        rw [Nat.sub_add_cancel (by omega)]
        exact ⟨_, rfl⟩

/-- A literal block is not the start of a run of four zeros. -/
theorem nextToken_literal {val : UInt8} {tail bytes : List UInt8}
    (literal : nextToken val tail = .literal bytes) :
    bytes = (val :: tail).take (litSpan 127 (val :: tail)) ∧ ¬ 4 ≤ prefixLen 0 (val :: tail) := by
  have notZeros : ¬ 4 ≤ prefixLen 0 (val :: tail) := by
    intro zeros
    rw [nextToken_zeros zeros] at literal
    cases literal
  refine ⟨?_, notZeros⟩
  unfold nextToken at literal
  split at literal
  · cases literal
  · split at literal
    · cases literal
    · exact (Token.literal.inj literal).symm

/-- A short literal block inside the page is followed by zeros. -/
theorem short_followed {val : UInt8} {tail bytes rest : List UInt8}
    (literal : nextToken val tail = .literal bytes) (split : val :: tail = bytes ++ rest)
    (short : bytes.length < 127) (more : rest ≠ []) : 4 ≤ prefixLen 0 rest := by
  rcases nextToken_literal literal with ⟨cut, _⟩
  have spanLe := litSpan_le 127 (val :: tail)
  have length : bytes.length = litSpan 127 (val :: tail) := by
    rw [cut, List.length_take, Nat.min_eq_left spanLe.2]
  have restPos : 0 < rest.length := List.length_pos_iff.mpr more
  have inside : litSpan 127 (val :: tail) < (val :: tail).length := by
    rw [split, List.length_append, ← split]
    omega
  have stop := litSpan_stop (by omega) inside
  rw [← length, split, List.drop_left] at stop
  exact stop

/-! ## Restorable pages -/

/-- The last token of a page, misread and padded, still gives its own bytes. -/
def Token.EndsWell : Token → Prop
  | literal [count] => count = 0
  | literal [count, val] => count = val ∧ count ≠ 1
  | _ => True

instance : DecidablePred Token.EndsWell
  | .zeros _ | .run _ _ | .literal [] | .literal (_ :: _ :: _ :: _) => isTrue trivial
  | .literal [count] => inferInstanceAs (Decidable (count = 0))
  | .literal [count, val] => inferInstanceAs (Decidable (count = val ∧ count ≠ 1))

instance : DecidablePred Token.Short
  | .zeros _ | .run _ _ => isFalse id
  | .literal bytes => inferInstanceAs (Decidable (bytes.length = 1 ∨ bytes.length = 2))

/-- Every short literal block is one that the misreading leaves as it is: two
bytes 2, or a last block that ends well. -/
def Restorable : List Token → Prop
  | [] => True
  | token :: rest =>
      (token.Short → token = .literal [2, 2] ∨ rest = [] ∧ token.EndsWell) ∧ Restorable rest

instance decidableRestorable : (tokens : List Token) → Decidable (Restorable tokens)
  | [] => isTrue trivial
  | _ :: rest =>
      have := decidableRestorable rest
      inferInstanceAs (Decidable (_ ∧ _))

/-- A page without short literal blocks is restorable. -/
theorem restorable_of_not_short {tokens : List Token}
    (long : ∀ token ∈ tokens, ¬ token.Short) : Restorable tokens := by
  induction tokens with
  | nil => trivial
  | cons token tokens inductionHypothesis =>
      refine ⟨fun short => absurd short (long token (by simp)), inductionHypothesis ?_⟩
      intro token member
      exact long token (by simp [member])

theorem decoded_of_not_short {token : Token} (long : ¬ token.Short) :
    token.decoded = token.expand := by
  cases token with
  | zeros count => rfl
  | run count val => rfl
  | literal bytes =>
      match bytes, long with
      | [], _ => rfl
      | [_], long => exact absurd (Or.inl rfl) long
      | [_, _], long => exact absurd (Or.inr rfl) long
      | _ :: _ :: _ :: _, _ => rfl

theorem toNat_eq {byte : UInt8} {value : Nat} (small : value < 256) :
    byte.toNat = value ↔ byte = UInt8.ofNat value := by
  rw [← UInt8.toNat_inj, UInt8.toNat_ofNat', Nat.mod_eq_of_lt small]

theorem padTo_last_one (count : UInt8) :
    padTo 1 (List.replicate count.toNat 0) = [count] ↔ count = 0 := by
  cases value : count.toNat with
  | zero =>
      have zero : count = 0 := (toNat_eq (by decide)).mp value
      simp [padTo, zero]
  | succ number =>
      rw [List.replicate_succ, padTo, padTo]
      simp [eq_comm]

theorem padTo_last_two (count val : UInt8) :
    padTo 2 (List.replicate count.toNat val) = [count, val] ↔ count = val ∧ count ≠ 1 := by
  match value : count.toNat with
  | 0 =>
      have zero : count = 0 := (toNat_eq (by decide)).mp value
      subst zero
      simp [padTo]
  | 1 =>
      have one : count = 1 := (toNat_eq (by decide)).mp value
      subst one
      simp only [List.replicate, padTo, List.cons.injEq, and_true, ne_eq, not_true, and_false,
        iff_false, not_and]
      intro val1 val0
      rw [val1] at val0
      exact absurd val0 (by decide)
  | number + 2 =>
      have notOne : count ≠ 1 := by
        intro one
        subst one
        simp at value
      simp [List.replicate_succ, padTo, notOne, eq_comm]

/-- A one-byte block inside the page is always lost. -/
theorem padTo_inner_one {count : UInt8} (notZero : count ≠ 0) (length : Nat)
    (more rest : List UInt8) :
    padTo (length + 1) (List.replicate count.toNat 0 ++ more) ≠ count :: rest := by
  cases value : count.toNat with
  | zero => exact absurd ((toNat_eq (by decide)).mp value) notZero
  | succ number =>
      rw [List.replicate_succ, List.cons_append, padTo]
      intro equal
      exact notZero (List.cons.inj equal).1.symm

/-- A two-byte block before zeros is lost unless both bytes are 2. -/
theorem padTo_inner_two {count val : UInt8} (notZeros : ¬ (count = 0 ∧ val = 0))
    (different : ¬ (count = 2 ∧ val = 2)) (length : Nat) (more rest : List UInt8) :
    padTo (length + 3) (List.replicate count.toNat val ++ 0 :: 0 :: more) ≠
      count :: val :: 0 :: rest := by
  intro equal
  match value : count.toNat with
  | 0 =>
      have zero : count = 0 := (toNat_eq (by decide)).mp value
      simp only [value, List.replicate_zero, List.nil_append, padTo, List.cons.injEq] at equal
      exact notZeros ⟨zero, equal.2.1.symm⟩
  | 1 =>
      have one : count = 1 := (toNat_eq (by decide)).mp value
      simp only [value, List.replicate, List.cons_append, List.nil_append, padTo,
        List.cons.injEq] at equal
      rw [one, ← equal.2.1] at equal
      exact absurd equal.1 (by decide)
  | 2 =>
      have two : count = 2 := (toNat_eq (by decide)).mp value
      simp only [value, List.replicate, List.cons_append, List.nil_append, padTo,
        List.cons.injEq] at equal
      exact different ⟨two, equal.1.trans two⟩
  | number + 3 =>
      rw [value] at equal
      simp only [List.replicate_succ, List.cons_append, padTo, List.cons.injEq] at equal
      have zero : val = 0 := equal.2.2.1
      exact notZeros ⟨equal.1.symm.trans zero, zero⟩

/-- A token that is read back correctly can be cut off on both sides. -/
theorem padTo_decoded_cons {token : Token} {rest : List UInt8} (tokens : List Token)
    (same : token.decoded = token.expand) :
    padTo (token.expand ++ rest).length ((token :: tokens).flatMap Token.decoded) =
        token.expand ++ rest ↔
      padTo rest.length (tokens.flatMap Token.decoded) = rest := by
  rw [List.flatMap_cons, padTo_append, same, List.length_append, Nat.add_sub_cancel_left,
    List.take_of_length_le (Nat.le_add_right _ _), List.append_cancel_left_eq]

/-- A misread block before more of the page never fits. -/
theorem padTo_short_inner {val : UInt8} {tail bytes rest : List UInt8}
    (literal : nextToken val tail = .literal bytes) (split : val :: tail = bytes ++ rest)
    (short : (Token.literal bytes).Short) (different : bytes ≠ [2, 2]) (more : rest ≠ []) :
    padTo (val :: tail).length
      ((Token.literal bytes :: pageTokens rest).flatMap Token.decoded) ≠ val :: tail := by
  have zeros := short_followed literal split (by rcases short with one | two <;> omega) more
  rcases pageTokens_zeros zeros with ⟨⟨after, restEq⟩, count, tokens, next⟩
  have notZeros := (nextToken_literal literal).2
  rw [split, restEq] at notZeros
  rw [split, next, restEq, List.flatMap_cons, List.flatMap_cons]
  match bytes, short, different with
  | [first], _, _ =>
      refine padTo_inner_one ?_ _ _ _
      intro zero
      subst zero
      simp only [List.cons_append, List.nil_append, prefixLen_cons_of_eq] at notZeros
      omega
  | [first, second], _, different =>
      refine padTo_inner_two ?_ ?_ (after.length + 3) (List.replicate (count + 2) 0 ++ _) _
      · rintro ⟨zero, zero'⟩
        subst zero zero'
        simp only [List.cons_append, List.nil_append, prefixLen_cons_of_eq] at notZeros
        omega
      · rintro ⟨two, two'⟩
        exact different (by rw [two, two'])
  | [], short, _ => rcases short with one | two <;> simp at *
  | _ :: _ :: _ :: _, short, _ => rcases short with one | two <;> simp at *

/-- A misread block at the end of the page. -/
theorem short_last_iff {bytes : List UInt8} (short : (Token.literal bytes).Short)
    (different : Token.literal bytes ≠ .literal [2, 2]) :
    padTo ((Token.literal bytes).expand ++ []).length
        ((Token.literal bytes :: pageTokens []).flatMap Token.decoded) =
        (Token.literal bytes).expand ++ [] ↔
      Restorable (Token.literal bytes :: pageTokens []) := by
  have restorable : Restorable (Token.literal bytes :: pageTokens []) ↔
      (Token.literal bytes).EndsWell := by
    simp [Restorable, short, different]
  rw [restorable]
  match bytes, short with
  | [count], _ =>
      simp only [pageTokens_nil, List.flatMap_cons, List.flatMap_nil, List.append_nil,
        Token.expand, Token.decoded, Token.EndsWell]
      exact padTo_last_one count
  | [count, val], _ =>
      simp only [pageTokens_nil, List.flatMap_cons, List.flatMap_nil, List.append_nil,
        Token.expand, Token.decoded, Token.EndsWell]
      exact padTo_last_two count val
  | [], short => rcases short with one | two <;> simp at *
  | _ :: _ :: _ :: _, short => rcases short with one | two <;> simp at *

theorem pageTokens_ne_nil {rest : List UInt8} (more : rest ≠ []) : pageTokens rest ≠ [] := by
  cases rest with
  | nil => exact absurd rfl more
  | cons val tail =>
      rw [pageTokens_cons]
      exact List.cons_ne_nil _ _

/-- The decoded tokens of a page rest are that rest exactly when the tokens are restorable. -/
theorem padTo_decoded_iff (rest : List UInt8) :
    padTo rest.length ((pageTokens rest).flatMap Token.decoded) = rest ↔
      Restorable (pageTokens rest) := by
  induction size : rest.length using Nat.strong_induction_on generalizing rest with
  | _ size' inductionHypothesis =>
  subst size
  cases rest with
  | nil => simp [padTo, Restorable]
  | cons val tail =>
      have positive := nextToken_expand_pos val tail
      have split : val :: tail = (nextToken val tail).expand ++
          (val :: tail).drop (nextToken val tail).expand.length := by
        conv_lhs => rw [← List.take_append_drop (nextToken val tail).expand.length (val :: tail),
          ← nextToken_expand]
      have shorter : ((val :: tail).drop (nextToken val tail).expand.length).length <
          (val :: tail).length := by
        rw [List.length_drop, List.length_cons]
        omega
      have tailIff := inductionHypothesis _ shorter _ rfl
      rw [pageTokens_cons]
      generalize (val :: tail).drop (nextToken val tail).expand.length = rest at *
      by_cases good : (nextToken val tail).Short → nextToken val tail = .literal [2, 2]
      · have same : (nextToken val tail).decoded = (nextToken val tail).expand := by
          by_cases short : (nextToken val tail).Short
          · rw [good short]
            rfl
          · exact decoded_of_not_short short
        rw [split, padTo_decoded_cons _ same, tailIff]
        exact ⟨fun holds => ⟨fun short => Or.inl (good short), holds⟩, fun holds => holds.2⟩
      · rcases Classical.not_imp.mp good with ⟨short, different⟩
        cases token : nextToken val tail with
        | zeros count => rw [token] at short; exact short.elim
        | run count byte => rw [token] at short; exact short.elim
        | literal bytes =>
            rw [token] at short different split
            by_cases more : rest = []
            · subst more
              rw [split]
              exact short_last_iff short different
            · have lost := padTo_short_inner token split short (fun two => different (by rw [two]))
                more
              refine iff_of_false lost fun restorable => ?_
              rcases restorable.1 short with two | ⟨last, _⟩
              · exact different two
              · exact pageTokens_ne_nil more last

/-! ## The round trip -/

/-- What the compressor accepts, the decompressor restores. -/
def RoundTrips (src : Page) (maxDst : Nat) : Prop :=
  ∃ n dst, zramCompressPage src.val maxDst = some (n, dst) ∧
    (0 ≤ n → zramDecompressPage (dst.take n.toNat) = some (0, src.val))

/-- The compressor's output is a list of tokens for the page, and the decoder
takes every tag for the kind of its token. -/
def KindsReadBack (src : Page) (maxDst : Nat) : Prop :=
  ∀ n dst, zramCompressPage src.val maxDst = some (n, dst) → 0 ≤ n →
    dst = encodeAll (pageTokens src.val) ∧
      ∀ token ∈ pageTokens src.val, tagKind token.tag = token.kind

theorem roundTrips_iff (src : Page) (maxDst : Nat) :
    RoundTrips src maxDst ↔
      (Fits maxDst (pageTokens src.val) 0 → Restorable (pageTokens src.val)) := by
  rcases zramCompressPage_eq src maxDst with ⟨fits, compressed⟩ | ⟨tooSmall, part, compressed⟩
  · have decoded : zramDecompressPage ((encodeAll (pageTokens src.val)).take
        ((encodeAll (pageTokens src.val)).length : Int).toNat) =
        some (0, padTo zramPageSize ((pageTokens src.val).flatMap Token.decoded)) := by
      rw [Int.toNat_natCast, List.take_length]
      exact zramDecompressPage_eq (pageTokens_wellFormed src.val)
    have restored := padTo_decoded_iff src.val
    rw [src.property] at restored
    constructor
    · rintro ⟨n, dst, compressed', restores⟩ _
      rw [compressed] at compressed'
      cases compressed'
      have page := restores (Int.natCast_nonneg _)
      rw [decoded] at page
      exact restored.mp (Prod.mk.inj (Option.some.inj page)).2
    · intro restorable
      refine ⟨_, _, compressed, fun _ => ?_⟩
      rw [decoded, restored.mpr (restorable fits)]
  · constructor
    · intro _ fits
      exact absurd fits tooSmall
    · intro _
      exact ⟨-1, part, compressed, fun impossible => absurd impossible (by decide)⟩

theorem kindsReadBack_iff (src : Page) (maxDst : Nat) :
    KindsReadBack src maxDst ↔
      (Fits maxDst (pageTokens src.val) 0 → ∀ token ∈ pageTokens src.val, ¬ token.Short) := by
  have kinds : (∀ token ∈ pageTokens src.val, tagKind token.tag = token.kind) ↔
      ∀ token ∈ pageTokens src.val, ¬ token.Short :=
    forall₂_congr fun token member => tagKind_tag (pageTokens_wellFormed src.val token member)
  rcases zramCompressPage_eq src maxDst with ⟨fits, compressed⟩ | ⟨tooSmall, part, compressed⟩
  · constructor
    · intro readBack _
      exact kinds.mp (readBack _ _ compressed (Int.natCast_nonneg _)).2
    · intro long n dst compressed' _
      rw [compressed] at compressed'
      cases compressed'
      exact ⟨rfl, kinds.mpr (long fits)⟩
  · constructor
    · intro _ fits
      exact absurd fits tooSmall
    · intro _ n dst compressed' nonnegative
      rw [compressed] at compressed'
      cases compressed'
      exact absurd nonnegative (by decide)

/-- The codec restores every page that has no literal block of one or two
bytes, or that the buffer is too small for; on the others some token is read
back as another kind.  The bytes alone survive exactly on restorable pages. -/
theorem codec_contract_iff (src : Page) (maxDst : Nat) :
    (RoundTrips src maxDst ∧ KindsReadBack src maxDst ↔
      (Fits maxDst (pageTokens src.val) 0 → ∀ token ∈ pageTokens src.val, ¬ token.Short)) ∧
    (RoundTrips src maxDst ↔
      (Fits maxDst (pageTokens src.val) 0 → Restorable (pageTokens src.val))) := by
  refine ⟨⟨fun contract => (kindsReadBack_iff src maxDst).mp contract.2, fun long => ?_⟩,
    roundTrips_iff src maxDst⟩
  exact ⟨(roundTrips_iff src maxDst).mpr fun fits => restorable_of_not_short (long fits),
    (kindsReadBack_iff src maxDst).mpr long⟩

theorem not_roundTrips (src : Page) (maxDst : Nat) (fits : Fits maxDst (pageTokens src.val) 0)
    (lost : ¬ Restorable (pageTokens src.val)) : ¬ RoundTrips src maxDst :=
  fun restores => lost ((roundTrips_iff src maxDst).mp restores fits)

/-- A single byte 7 in front of zeros. -/
@[irreducible] def sevenPage : Page := ⟨7 :: List.replicate 4095 0, by decide +kernel⟩

/-- The block of one byte is read back as seven zeros, and the page as zeros only. -/
theorem codec_contract_seven :
    ¬ (RoundTrips sevenPage 4096 ∧ KindsReadBack sevenPage 4096) ∧
    ¬ RoundTrips sevenPage 4096 := by
  have fits : Fits 4096 (pageTokens sevenPage.val) 0 := by decide +kernel
  have first : nextToken 7 (List.replicate 4095 0) = .literal [7] := by decide +kernel
  have rest : (7 :: List.replicate 4095 0).drop 1 ≠ ([] : List UInt8) := List.cons_ne_nil _ _
  have lost : ¬ Restorable (pageTokens sevenPage.val) := by
    unfold sevenPage
    rw [pageTokens_cons, first]
    rintro ⟨block, _⟩
    rcases block (Or.inl rfl) with two | ⟨last, _⟩
    · cases two
    · exact pageTokens_ne_nil rest last
  have corrupted : ¬ RoundTrips sevenPage 4096 := not_roundTrips sevenPage 4096 fits lost
  exact ⟨fun contract => corrupted contract.1, corrupted⟩

end Zram
end AuraKernel
