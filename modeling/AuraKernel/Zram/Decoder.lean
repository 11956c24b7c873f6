import AuraKernel.Zram.Compressor

namespace AuraKernel
namespace Zram

open Machine

/-!
# What the decompressor reads

`zram_decompress_page` looks at a tag byte and takes 1 for a run of zeros and
2 for a byte run, whatever the compressor meant.  A literal block of one or
two bytes has exactly these tags, so it is read as a run.  `Token.decoded`
records what each token becomes, and the decoder's output on a stream of
tokens is the concatenation of these pieces, cut and padded to a page.
-/

/-- What the decoder writes for a token. -/
def Token.decoded : Token → List UInt8
  | literal [count] => List.replicate count.toNat 0
  | literal [count, val] => List.replicate count.toNat val
  | token => token.expand

/-- Cut to `length` bytes, or padded with zeros. -/
def padTo : Nat → List UInt8 → List UInt8
  | 0, _ => []
  | length + 1, [] => 0 :: padTo length []
  | length + 1, byte :: bytes => byte :: padTo length bytes

@[simp] theorem length_padTo (length : Nat) (bytes : List UInt8) :
    (padTo length bytes).length = length := by
  induction length generalizing bytes with
  | zero => rfl
  | succ length inductionHypothesis =>
      cases bytes with
      | nil => simp [padTo, inductionHypothesis]
      | cons byte bytes => simp [padTo, inductionHypothesis]

theorem padTo_nil (length : Nat) : padTo length [] = List.replicate length 0 := by
  induction length with
  | zero => rfl
  | succ length inductionHypothesis => rw [padTo, inductionHypothesis, List.replicate_succ]

theorem padTo_append (length : Nat) (front rest : List UInt8) :
    padTo length (front ++ rest) = front.take length ++ padTo (length - front.length) rest := by
  induction front generalizing length with
  | nil => simp
  | cons byte front inductionHypothesis =>
      cases length with
      | zero => simp [padTo]
      | succ length =>
          rw [List.cons_append, padTo, inductionHypothesis, List.take_succ_cons,
            List.cons_append, List.length_cons, Nat.succ_sub_succ]

/-! ## The inner loops -/

theorem fillLoop_eq {val : UInt8} {count : Nat} {out : List UInt8}
    (room : out.length ≤ zramPageSize) :
    fillLoop val count out =
      out ++ (List.replicate count val).take (zramPageSize - out.length) := by
  induction count generalizing out with
  | zero => simp [fillLoop]
  | succ count inductionHypothesis =>
      rw [fillLoop]
      by_cases more : out.length < zramPageSize
      · have left : zramPageSize - out.length = (zramPageSize - (out.length + 1)) + 1 := by
          omega
        rw [if_pos more, inductionHypothesis (by simp; omega), List.length_append,
          List.length_singleton, List.replicate_succ, left, List.take_succ_cons,
          List.append_assoc, List.singleton_append]
      · rw [if_neg more, Nat.sub_eq_zero_of_le (Nat.le_of_not_lt more)]
        simp

/-- The copy stops at the end of the block or at the end of the page. -/
theorem literalCopy_eq {src : List UInt8} {count inIdx : Nat} {out : List UInt8}
    (inside : inIdx + count ≤ src.length) (room : out.length ≤ zramPageSize) :
    ∃ next, literalCopy src count inIdx out =
        some (next, out ++ ((src.drop inIdx).take count).take (zramPageSize - out.length)) ∧
      (out.length + count ≤ zramPageSize → next = inIdx + count) := by
  induction count generalizing inIdx out with
  | zero => exact ⟨inIdx, by simp [literalCopy], fun _ => rfl⟩
  | succ count inductionHypothesis =>
      rw [literalCopy]
      by_cases more : out.length < zramPageSize
      · rcases drop_cons src inIdx (by omega) with ⟨byte, read, rest⟩
        rcases inductionHypothesis (by omega : inIdx + 1 + count ≤ _)
          (by simp; omega : (out ++ [byte]).length ≤ zramPageSize) with
          ⟨next, copied, nextEq⟩
        have left : zramPageSize - out.length = (zramPageSize - (out.length + 1)) + 1 := by
          omega
        refine ⟨next, ?_, fun fits => ?_⟩
        · rw [if_pos more, read, Option.bind_eq_bind, Option.bind_some, copied, rest,
            List.length_append, List.length_singleton, List.take_succ_cons, left,
            List.take_succ_cons, List.append_assoc, List.singleton_append]
        · rw [nextEq (by simpa [Nat.add_assoc, Nat.add_comm 1] using fits)]
          omega
      · refine ⟨inIdx, ?_, fun fits => by omega⟩
        rw [if_neg more, Nat.sub_eq_zero_of_le (Nat.le_of_not_lt more)]
        simp

/-! ## Tag bytes -/

theorem tag_literal {bytes : List UInt8} (short : bytes.length ≤ 127) :
    (Token.literal bytes).tag = UInt8.ofNat bytes.length := by
  have masked : bytes.length &&& 0x7F = bytes.length := by
    rw [show (0x7F : Nat) = 2 ^ 7 - 1 from rfl, Nat.and_two_pow_sub_one_eq_mod]
    exact Nat.mod_eq_of_lt (by omega)
  rw [Token.tag, masked, zramTagLiteral, UInt8.zero_or]

theorem toNat_tag_literal {bytes : List UInt8} (short : bytes.length ≤ 127) :
    (Token.literal bytes).tag.toNat = bytes.length := by
  rw [tag_literal short, UInt8.toNat_ofNat']
  exact Nat.mod_eq_of_lt (by omega)

/-- The length the decoder takes from a literal tag. -/
theorem litLen_tag {bytes : List UInt8} (short : bytes.length ≤ 127) :
    ((Token.literal bytes).tag &&& 0x7F).toNat = bytes.length := by
  rw [UInt8.toNat_and, toNat_tag_literal short, show ((0x7F : UInt8).toNat) = 2 ^ 7 - 1 from rfl,
    Nat.and_two_pow_sub_one_eq_mod]
  exact Nat.mod_eq_of_lt (by omega)

/-- The decoder recognises a token's kind unless it is a literal block of one
or two bytes. -/
theorem tagKind_tag {token : Token} (wellFormed : token.WellFormed) :
    tagKind token.tag = token.kind ↔ ¬ token.Short := by
  cases token with
  | zeros count => simp [tagKind, Token.tag, Token.kind, Token.Short]
  | run count val => simp [tagKind, Token.tag, Token.kind, Token.Short, zramTagRun, zramTagZeros]
  | literal bytes =>
      have number := toNat_tag_literal wellFormed.2
      simp only [tagKind, Token.kind, Token.Short, ← UInt8.toNat_inj, number, zramTagZeros,
        zramTagRun, UInt8.reduceToNat]
      by_cases one : bytes.length = 1
      · simp [one]
      · by_cases two : bytes.length = 2
        · simp [two]
        · simp [one, two]

/-! ## The outer loop -/

theorem decompressLoop_full {src : List UInt8} {fuel inIdx : Nat} {out : List UInt8}
    (full : out.length = zramPageSize) :
    decompressLoop src (fuel + 1) inIdx out = some (0, out) := by
  rw [decompressLoop, if_neg (by omega), full, Nat.sub_self]
  rfl

/-- The bytes at an index, from what is known about the rest of the input. -/
theorem getElem?_of_drop {src : List UInt8} {inIdx : Nat} {known more : List UInt8}
    (rest : src.drop inIdx = known ++ more) {offset : Nat} (bound : offset < known.length) :
    src[inIdx + offset]? = known[offset]? := by
  rw [← List.getElem?_drop, rest, List.getElem?_append_left bound]

theorem length_of_drop {src : List UInt8} {inIdx : Nat} {known more : List UInt8}
    (rest : src.drop inIdx = known ++ more) (nonempty : 0 < known.length) :
    inIdx + known.length + more.length = src.length := by
  have total := congrArg List.length rest
  rw [List.length_drop, List.length_append] at total
  omega

theorem decompressLoop_zeros {src : List UInt8} {fuel inIdx : Nat} {out more : List UInt8}
    {count : UInt8} (rest : src.drop inIdx = [zramTagZeros, count] ++ more)
    (room : out.length < zramPageSize) :
    decompressLoop src (fuel + 1) inIdx out = decompressLoop src fuel (inIdx + 2)
      (out ++ (List.replicate count.toNat 0).take (zramPageSize - out.length)) := by
  have total := length_of_drop rest (by simp)
  have tag := getElem?_of_drop rest (by simp : 0 < 2)
  have counted := getElem?_of_drop rest (by simp : 1 < 2)
  simp only [List.length_cons, List.length_nil] at total
  simp only [Nat.add_zero, List.getElem?_cons_zero] at tag
  simp only [List.getElem?_cons_succ, List.getElem?_cons_zero] at counted
  rw [decompressLoop, if_pos ⟨by omega, room⟩, tag]
  simp only [Option.bind_eq_bind, Option.bind_some]
  rw [show tagKind zramTagZeros = .zeros from rfl]
  simp only
  rw [if_neg (by omega), counted, Option.bind_some, fillLoop_eq (Nat.le_of_lt room)]

theorem decompressLoop_run {src : List UInt8} {fuel inIdx : Nat} {out more : List UInt8}
    {count val : UInt8} (rest : src.drop inIdx = [zramTagRun, count, val] ++ more)
    (room : out.length < zramPageSize) :
    decompressLoop src (fuel + 1) inIdx out = decompressLoop src fuel (inIdx + 3)
      (out ++ (List.replicate count.toNat val).take (zramPageSize - out.length)) := by
  have total := length_of_drop rest (by simp)
  have tag := getElem?_of_drop rest (by simp : 0 < 3)
  have counted := getElem?_of_drop rest (by simp : 1 < 3)
  have valued := getElem?_of_drop rest (by simp : 2 < 3)
  simp only [List.length_cons, List.length_nil] at total
  simp only [Nat.add_zero, List.getElem?_cons_zero] at tag
  simp only [List.getElem?_cons_succ, List.getElem?_cons_zero] at counted valued
  rw [decompressLoop, if_pos ⟨by omega, room⟩, tag]
  simp only [Option.bind_eq_bind, Option.bind_some]
  rw [show tagKind zramTagRun = .run from rfl]
  simp only
  rw [if_neg (by omega), counted, Option.bind_some, Nat.add_assoc, valued, Option.bind_some,
    fillLoop_eq (Nat.le_of_lt room)]

/-- A literal block is copied as far as the page has room for it. -/
theorem decompressLoop_literal {src : List UInt8} {fuel inIdx : Nat} {out more bytes : List UInt8}
    {tag : UInt8} (kind : tagKind tag = .literal) (length : (tag &&& 0x7F).toNat = bytes.length)
    (nonempty : bytes ≠ []) (rest : src.drop inIdx = (tag :: bytes) ++ more)
    (room : out.length < zramPageSize) :
    ∃ next, decompressLoop src (fuel + 1) inIdx out = decompressLoop src fuel next
        (out ++ bytes.take (zramPageSize - out.length)) ∧
      (out.length + bytes.length ≤ zramPageSize → next = inIdx + (bytes.length + 1)) := by
  have total := length_of_drop rest (by simp)
  have read := getElem?_of_drop rest (by simp : 0 < (tag :: bytes).length)
  have block : src.drop (inIdx + 1) = bytes ++ more := by
    rw [← List.drop_drop, rest]
    rfl
  have lengthPos := List.length_pos_iff.mpr nonempty
  simp only [List.length_cons] at total
  simp only [Nat.add_zero, List.getElem?_cons_zero] at read
  rcases literalCopy_eq
    (by omega : inIdx + 1 + bytes.length ≤ src.length) (Nat.le_of_lt room) with
    ⟨next, copied, nextEq⟩
  refine ⟨next, ?_, fun fits => ?_⟩
  · rw [decompressLoop, if_pos ⟨by omega, room⟩, read]
    simp only [Option.bind_eq_bind, Option.bind_some]
    rw [kind]
    simp only [length]
    rw [if_neg (by omega), copied, block, List.take_left']
    · rfl
    · rfl
  · rw [nextEq fits]
    omega

theorem decompressLoop_token {src : List UInt8} {fuel inIdx : Nat} {out more : List UInt8}
    {token : Token} (wellFormed : token.WellFormed)
    (rest : src.drop inIdx = token.encode ++ more) (room : out.length < zramPageSize) :
    ∃ next, decompressLoop src (fuel + 1) inIdx out =
        decompressLoop src fuel next
          (out ++ token.decoded.take (zramPageSize - out.length)) ∧
      (out.length + token.decoded.length ≤ zramPageSize → next = inIdx + token.size) := by
  cases token with
  | zeros count =>
      refine ⟨inIdx + 2, ?_, fun _ => rfl⟩
      rw [decompressLoop_zeros rest room, UInt8.toNat_ofNat',
        Nat.mod_eq_of_lt (Nat.lt_succ_of_le wellFormed.2)]
      rfl
  | run count val =>
      refine ⟨inIdx + 3, ?_, fun _ => rfl⟩
      rw [decompressLoop_run rest room, UInt8.toNat_ofNat',
        Nat.mod_eq_of_lt (Nat.lt_succ_of_le wellFormed.2.1)]
      rfl
  | literal bytes =>
      -- one and two bytes are read as the runs their tags announce
      match bytes, wellFormed, rest with
      | [count], wellFormed, rest =>
          rw [Token.encode, tag_literal wellFormed.2] at rest
          exact ⟨inIdx + 2, decompressLoop_zeros rest room, fun _ => rfl⟩
      | [count, val], wellFormed, rest =>
          rw [Token.encode, tag_literal wellFormed.2] at rest
          exact ⟨inIdx + 3, decompressLoop_run rest room, fun _ => rfl⟩
      | first :: second :: third :: bytes, wellFormed, rest =>
          have long : ¬ (Token.literal (first :: second :: third :: bytes)).Short := by
            simp [Token.Short]
          exact decompressLoop_literal ((tagKind_tag wellFormed).mpr long)
            (litLen_tag wellFormed.2) (List.cons_ne_nil _ _) rest room

/-- The loop from the first byte of some token on. -/
theorem decompressLoop_eq {src : List UInt8} {tokens : List Token}
    (wellFormed : ∀ token ∈ tokens, token.WellFormed) {fuel inIdx : Nat} {out : List UInt8}
    (rest : src.drop inIdx = encodeAll tokens) (room : out.length ≤ zramPageSize)
    (enough : tokens.length < fuel) :
    decompressLoop src fuel inIdx out =
      some (0, out ++ padTo (zramPageSize - out.length) (tokens.flatMap Token.decoded)) := by
  induction tokens generalizing fuel inIdx out with
  | nil =>
      cases fuel with
      | zero => simp at enough
      | succ fuel =>
          have ended : src.length ≤ inIdx := List.drop_eq_nil_iff.mp rest
          rw [decompressLoop, if_neg (by omega), fillLoop_eq room, List.take_of_length_le (by simp),
            List.flatMap_nil, padTo_nil]
  | cons token tokens inductionHypothesis =>
      cases fuel with
      | zero => simp at enough
      | succ fuel =>
          by_cases full : out.length = zramPageSize
          · rw [decompressLoop_full full, full, Nat.sub_self]
            simp [padTo]
          · have notFull : out.length < zramPageSize := by omega
            have first : src.drop inIdx = token.encode ++ encodeAll tokens := rest
            rcases @decompressLoop_token src fuel inIdx out _ token
              (wellFormed token (by simp)) first notFull with
              ⟨next, pass, nextEq⟩
            rw [pass, List.flatMap_cons, padTo_append, ← List.append_assoc]
            have fuelLeft : tokens.length < fuel := by simpa using enough
            by_cases fits : out.length + token.decoded.length ≤ zramPageSize
            · rw [List.take_of_length_le (by omega), nextEq fits, inductionHypothesis
                (fun token member => wellFormed token (by simp [member])) _ _ fuelLeft]
              · rw [List.length_append, Nat.sub_add_eq]
              · rw [← List.drop_drop, rest, encodeAll_cons, Token.size, List.drop_left]
              · rw [List.length_append]
                exact fits
            · -- the page is full in the middle of this token
              cases fuel with
              | zero => omega
              | succ fuel =>
                  have noneLeft :
                      zramPageSize - out.length - token.decoded.length = 0 := by omega
                  rw [decompressLoop_full, noneLeft]
                  · simp [padTo]
                  · rw [List.length_append, List.length_take]
                    omega

/-- `zram_decompress_page` on a stream of tokens: it never fails, and this is
the page it writes. -/
theorem zramDecompressPage_eq {tokens : List Token}
    (wellFormed : ∀ token ∈ tokens, token.WellFormed) :
    zramDecompressPage (encodeAll tokens) =
      some (0, padTo zramPageSize (tokens.flatMap Token.decoded)) := by
  have lengthLe : tokens.length ≤ (encodeAll tokens).length := by
    clear wellFormed
    induction tokens with
    | nil => simp
    | cons token tokens inductionHypothesis =>
        have nonempty : 0 < token.encode.length := by
          cases token <;> simp [Token.encode]
        rw [encodeAll_cons, List.length_append, List.length_cons]
        omega
  exact decompressLoop_eq wellFormed rfl (by simp) (Nat.lt_succ_of_le lengthLe)

end Zram
end AuraKernel
