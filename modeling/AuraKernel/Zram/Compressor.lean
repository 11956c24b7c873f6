import AuraKernel.Zram.Tokens

namespace AuraKernel
namespace Zram

open Machine

/-!
# What the compressor writes

Over a whole page `zram_compress_page` either writes the encodings of the
page's tokens, one after the other, or gives up with -1.  It gives up exactly
when the buffer is too small in the sense of `Fits`: it wants more than four
bytes of room before every token, and room for all of a literal block.  A
block that is cut by the buffer end always leads to failure in the next pass,
because the page is then not finished.
-/

/-- The tokens fit a buffer of `maxDst` bytes of which `used` are taken. -/
def Fits (maxDst : Nat) : List Token → Nat → Prop
  | [], _ => True
  | token :: rest, used =>
      used + 4 < maxDst ∧ used + token.size ≤ maxDst ∧ Fits maxDst rest (used + token.size)

instance decidableFits (maxDst : Nat) : (tokens : List Token) → (used : Nat) →
    Decidable (Fits maxDst tokens used)
  | [], _ => isTrue trivial
  | token :: rest, used =>
      have := decidableFits maxDst rest (used + token.size)
      inferInstanceAs (Decidable (_ ∧ _ ∧ _))

def encodeAll (tokens : List Token) : List UInt8 := tokens.flatMap Token.encode

@[simp] theorem encodeAll_nil : encodeAll [] = [] := rfl

@[simp] theorem encodeAll_cons (token : Token) (rest : List Token) :
    encodeAll (token :: rest) = token.encode ++ encodeAll rest := rfl

@[simp] theorem pageTokens_nil : pageTokens [] = [] := rfl

theorem pageTokens_cons (val : UInt8) (tail : List UInt8) :
    pageTokens (val :: tail) = nextToken val tail ::
      pageTokens ((val :: tail).drop (nextToken val tail).expand.length) := by
  have positive := nextToken_expand_pos val tail
  unfold pageTokens
  rw [List.length_cons, tokensFrom]
  congr 1
  apply tokensFrom_fuel (Nat.le_refl _)
  rw [List.length_drop, List.length_cons]
  omega

theorem pageTokens_wellFormed (rest : List UInt8) :
    ∀ token ∈ pageTokens rest, token.WellFormed := by
  induction size : rest.length using Nat.strong_induction_on generalizing rest with
  | _ size' inductionHypothesis =>
  subst size
  cases rest with
  | nil => simp
  | cons val tail =>
      have positive := nextToken_expand_pos val tail
      intro token member
      rw [pageTokens_cons] at member
      rcases List.mem_cons.mp member with rfl | later
      · exact nextToken_wellFormed val tail
      · refine inductionHypothesis _ ?_ _ rfl token later
        rw [List.length_drop, List.length_cons]
        omega

/-! ## The inner loops -/

/-- The rest of the page at an index inside it. -/
theorem drop_cons (src : List UInt8) (i : Nat) (bound : i < src.length) :
    ∃ val, src[i]? = some val ∧ src.drop i = val :: src.drop (i + 1) := by
  refine ⟨src[i], List.getElem?_eq_getElem bound, List.drop_eq_getElem_cons bound⟩

theorem runLoop_eq {src : List UInt8} (length : src.length = zramPageSize) (val : UInt8)
    (inIdx budget run : Nat) :
    runLoop src inIdx val budget run =
      some (run + min budget (prefixLen val (src.drop (inIdx + run)))) := by
  induction budget generalizing run with
  | zero => simp [runLoop]
  | succ budget inductionHypothesis =>
      rw [runLoop]
      by_cases inside : inIdx + run < zramPageSize
      · rw [if_pos inside]
        rcases drop_cons src (inIdx + run) (by omega) with ⟨byte, read, rest⟩
        rw [read, rest, Option.bind_eq_bind, Option.bind_some]
        by_cases same : byte = val
        · subst same
          rw [if_pos rfl, inductionHypothesis, prefixLen_cons_of_eq]
          have shifted : inIdx + (run + 1) = inIdx + run + 1 := by omega
          rw [shifted]
          congr 1
          omega
        · rw [if_neg same, prefixLen_cons_of_ne same]
          simp
      · rw [if_neg inside, List.drop_eq_nil_of_le (by omega)]
        simp

theorem fourZeros_eq {src : List UInt8} {i : Nat} (bound : i + 4 < src.length) :
    fourZeros src i = some (decide (4 ≤ prefixLen 0 (src.drop i))) := by
  rcases drop_cons src i (by omega) with ⟨first, read0, rest0⟩
  rcases drop_cons src (i + 1) (by omega) with ⟨second, read1, rest1⟩
  rcases drop_cons src (i + 2) (by omega) with ⟨third, read2, rest2⟩
  rcases drop_cons src (i + 3) (by omega) with ⟨fourth, read3, rest3⟩
  unfold fourZeros
  rw [read0, read1, read2, read3, rest0, rest1, rest2, rest3]
  simp only [Option.bind_eq_bind, Option.bind_some, Option.some.injEq]
  by_cases zero0 : first = 0
  · by_cases zero1 : second = 0
    · by_cases zero2 : third = 0
      · by_cases zero3 : fourth = 0
        · subst zero0 zero1 zero2 zero3
          simp only [prefixLen_cons_of_eq]
          simp
        · subst zero0 zero1 zero2
          simp [prefixLen_cons_of_eq, prefixLen_cons_of_ne zero3, zero3]
      · subst zero0 zero1
        simp [prefixLen_cons_of_eq, prefixLen_cons_of_ne zero2, zero2]
    · subst zero0
      simp [prefixLen_cons_of_eq, prefixLen_cons_of_ne zero1, zero1]
  · simp [prefixLen_cons_of_ne zero0, zero0]

theorem literalBreak_eq {src : List UInt8} (length : src.length = zramPageSize) {inIdx : Nat}
    (inside : inIdx < zramPageSize) :
    literalBreak src inIdx =
      some (decide (4 < (src.drop inIdx).length ∧ 4 ≤ prefixLen 0 (src.drop inIdx))) := by
  unfold literalBreak
  rw [List.length_drop, length]
  by_cases far : inIdx + 4 < zramPageSize
  · have more : 4 < zramPageSize - inIdx := by omega
    rw [if_pos far, fourZeros_eq (by omega)]
    simp only [more, true_and]
  · have last : ¬ 4 < zramPageSize - inIdx := by omega
    rw [if_neg far]
    simp only [last, false_and, decide_false]

theorem literalLoop_eq {src : List UInt8} (length : src.length = zramPageSize)
    (budget inIdx litLen : Nat) :
    literalLoop src budget inIdx litLen = some (litLen + litSpan budget (src.drop inIdx)) := by
  induction budget generalizing inIdx litLen with
  | zero => simp [literalLoop, litSpan]
  | succ budget inductionHypothesis =>
      rw [literalLoop]
      by_cases inside : inIdx < zramPageSize
      · rcases drop_cons src inIdx (by omega) with ⟨byte, _, rest⟩
        rw [if_pos inside, literalBreak_eq length inside, rest, litSpan, Option.bind_eq_bind,
          Option.bind_some]
        by_cases stop : 4 < (byte :: src.drop (inIdx + 1)).length ∧
            4 ≤ prefixLen 0 (byte :: src.drop (inIdx + 1))
        · rw [if_pos (decide_eq_true stop), if_pos stop, Nat.add_zero]
        · rw [if_neg (by simpa using stop), if_neg stop, inductionHypothesis]
          congr 1
          omega
      · rw [if_neg inside, List.drop_eq_nil_of_le (by omega)]
        simp [litSpan]

theorem emit_eq {maxDst : Nat} {out : List UInt8} (room : out.length < maxDst) (byte : UInt8) :
    emit maxDst out byte = some (out ++ [byte]) :=
  if_pos room

theorem emitFrom_eq {src : List UInt8} {maxDst start count : Nat} {out : List UInt8}
    (inside : start + count ≤ src.length) (room : out.length + count ≤ maxDst) :
    emitFrom src maxDst start count out = some (out ++ (src.drop start).take count) := by
  induction count generalizing start out with
  | zero => simp [emitFrom]
  | succ count inductionHypothesis =>
      rcases drop_cons src start (by omega) with ⟨byte, read, rest⟩
      rw [emitFrom, read, Option.bind_eq_bind, Option.bind_some, emit_eq (by omega),
        Option.bind_eq_bind, Option.bind_some, inductionHypothesis (by omega) (by
          rw [List.length_append, List.length_singleton]
          omega), rest, List.take_succ_cons]
      simp

/-! ## The outer loop -/

theorem zeroLoop_eq {src : List UInt8} (length : src.length = zramPageSize) (inIdx : Nat)
    (val : UInt8) : zeroLoop src inIdx val = some (zeroRun val (src.drop inIdx)) := by
  unfold zeroLoop zeroRun
  by_cases zero : val = 0
  · rw [if_pos zero, if_pos zero, runLoop_eq length]
    simp
  · rw [if_neg zero, if_neg zero]

theorem litCap_eq {maxDst used : Nat} (room : used + 4 < maxDst) :
    (if sub64 (sub64 maxDst used) 1 > 127 then 127 else sub64 (sub64 maxDst used) 1) =
      min 127 (maxDst - used - 1) := by
  rw [sub64_of_le (by omega : used ≤ maxDst), sub64_of_le (by omega)]
  split <;> omega

/-- What a pass leaves to do. -/
def resume (src : List UInt8) (maxDst fuel : Nat) : Pass → Option (Int × List UInt8)
  | .returned ret out => some (ret, out)
  | .next inIdx out => compressLoop src maxDst fuel inIdx out

/-- The loop is its first pass and the rest. -/
theorem compressLoop_succ (src : List UInt8) (maxDst fuel inIdx : Nat) (out : List UInt8) :
    compressLoop src maxDst (fuel + 1) inIdx out =
      (compressPass src maxDst inIdx out).bind (resume src maxDst fuel) := by
  rw [compressLoop, compressPass]
  simp only [Option.bind_eq_bind, Option.bind_assoc,
    apply_ite fun pass => Option.bind pass (resume src maxDst fuel), Option.bind_some, resume]

section Passes

variable {src : List UInt8} (length : src.length = zramPageSize) {maxDst inIdx : Nat}
  {out : List UInt8} {val : UInt8} {tail : List UInt8}

include length

/-- One pass with the inner loops evaluated; only the writes are left. -/
theorem compressPass_eq (rest : src.drop inIdx = val :: tail) (room : out.length + 4 < maxDst) :
    compressPass src maxDst inIdx out =
      if 4 ≤ zeroRun val (val :: tail) then
        (emit maxDst out zramTagZeros).bind fun out =>
          (emit maxDst out (UInt8.ofNat (zeroRun val (val :: tail)))).bind fun out =>
            some (.next (inIdx + zeroRun val (val :: tail)) out)
      else if 6 ≤ min 255 (prefixLen val (val :: tail)) then
        (emit maxDst out zramTagRun).bind fun out =>
          (emit maxDst out (UInt8.ofNat (min 255 (prefixLen val (val :: tail))))).bind fun out =>
            (emit maxDst out val).bind fun out =>
              some (.next (inIdx + min 255 (prefixLen val (val :: tail))) out)
      else
        (emit maxDst out (zramTagLiteral ||| UInt8.ofNat
            (min (maxDst - out.length - 1) (litSpan 127 (val :: tail)) &&& 0x7F))).bind fun out' =>
          (emitFrom src maxDst inIdx
            (min (maxDst - out.length - 1) (litSpan 127 (val :: tail))) out').bind fun out' =>
              some (.next
                (inIdx + min (maxDst - out.length - 1) (litSpan 127 (val :: tail))) out') := by
  have inside : inIdx < zramPageSize := by
    have restLength := congrArg List.length rest
    rw [List.length_drop, List.length_cons] at restLength
    omega
  have read : src[inIdx]? = some val := by
    rw [← List.head?_drop, rest, List.head?_cons]
  rw [compressPass, if_pos inside, if_neg (by omega), read]
  simp only [Option.bind_eq_bind, Option.bind_some, zeroLoop_eq length, runLoop_eq length,
    literalLoop_eq length, litCap_eq room, rest, Nat.zero_add, Nat.add_zero, ge_iff_le]
  by_cases zeros : 4 ≤ zeroRun val (val :: tail)
  · rw [if_pos zeros, if_pos zeros]
  · rw [if_neg zeros, if_neg zeros]
    by_cases run : 6 ≤ min 255 (prefixLen val (val :: tail))
    · rw [if_pos run, if_pos run]
    · have spanPos : 0 < litSpan 127 (val :: tail) := litSpan_pos (by decide) zeros
      have spanIs : litSpan (min 127 (maxDst - out.length - 1)) (val :: tail) =
          min (maxDst - out.length - 1) (litSpan 127 (val :: tail)) := by
        have spanLe := litSpan_le 127 (val :: tail)
        rw [litSpan_min (Nat.min_le_left _ _)]
        omega
      rw [if_neg run, if_neg run, spanIs, if_pos (by omega), if_neg (by omega)]

/-- One pass with enough room writes the next token and moves behind it. -/
theorem compressPass_token (rest : src.drop inIdx = val :: tail) (room : out.length + 4 < maxDst)
    (fits : out.length + (nextToken val tail).size ≤ maxDst) :
    compressPass src maxDst inIdx out =
      some (.next (inIdx + (nextToken val tail).expand.length)
        (out ++ (nextToken val tail).encode)) := by
  rw [compressPass_eq length rest room]
  unfold nextToken at fits ⊢
  by_cases zeros : 4 ≤ zeroRun val (val :: tail)
  · rw [if_pos zeros, if_pos zeros, emit_eq (by omega), Option.bind_some,
      emit_eq (by simp; omega), Option.bind_some]
    simp only [Token.expand, Token.encode, List.length_replicate, List.append_assoc,
      List.singleton_append]
  · rw [if_neg zeros] at fits
    rw [if_neg zeros, if_neg zeros]
    by_cases run : 6 ≤ min 255 (prefixLen val (val :: tail))
    · rw [if_pos run, if_pos run, emit_eq (by omega), Option.bind_some,
        emit_eq (by simp; omega), Option.bind_some, emit_eq (by simp; omega), Option.bind_some]
      simp only [Token.expand, Token.encode, List.length_replicate, List.append_assoc,
        List.cons_append, List.nil_append]
    · rw [if_neg run] at fits
      have spanLe := litSpan_le 127 (val :: tail)
      have restLength := congrArg List.length rest
      rw [List.length_drop] at restLength
      have room127 : out.length + 1 + litSpan 127 (val :: tail) ≤ maxDst := by
        simp only [Token.size, Token.encode, List.length_cons, List.length_take] at fits spanLe
        omega
      have spanPos : 0 < litSpan 127 (val :: tail) := litSpan_pos (by decide) zeros
      rw [if_neg run, if_neg run, Nat.min_eq_right (by omega), emit_eq (by omega),
        Option.bind_some, emitFrom_eq (by omega) (by simp; omega), Option.bind_some, rest]
      simp only [Token.expand, Token.encode, Token.tag, List.length_take, List.append_assoc,
        List.singleton_append, Nat.min_eq_left spanLe.2]

/-- A pass whose literal block does not fit fills the buffer in front of the page end. -/
theorem compressPass_truncated (rest : src.drop inIdx = val :: tail)
    (room : out.length + 4 < maxDst) (tooLong : maxDst < out.length + (nextToken val tail).size) :
    ∃ next part, compressPass src maxDst inIdx out = some (.next next part) ∧ inIdx < next ∧
      next < zramPageSize ∧ part.length = maxDst := by
  rw [compressPass_eq length rest room]
  unfold nextToken at tooLong
  by_cases zeros : 4 ≤ zeroRun val (val :: tail)
  · rw [if_pos zeros] at tooLong
    simp only [Token.size, Token.encode, List.length_cons, List.length_nil] at tooLong
    omega
  · rw [if_neg zeros] at tooLong
    by_cases run : 6 ≤ min 255 (prefixLen val (val :: tail))
    · rw [if_pos run] at tooLong
      simp only [Token.size, Token.encode, List.length_cons, List.length_nil] at tooLong
      omega
    · rw [if_neg run] at tooLong
      have spanLe := litSpan_le 127 (val :: tail)
      have restLength := congrArg List.length rest
      rw [List.length_drop] at restLength
      have spanBig : maxDst < out.length + 1 + litSpan 127 (val :: tail) := by
        simp only [Token.size, Token.encode, List.length_cons, List.length_take] at tooLong spanLe
        omega
      rw [if_neg zeros, if_neg run, Nat.min_eq_left (by omega), emit_eq (by omega),
        Option.bind_some, emitFrom_eq (by omega) (by simp; omega), Option.bind_some]
      refine ⟨_, _, rfl, by omega, by omega, ?_⟩
      simp only [List.length_append, List.length_take, List.length_drop, List.length_cons,
        List.length_nil]
      omega

end Passes

/-- The loop from an index of the page on: success with the encoded tokens if
they fit, -1 otherwise. -/
theorem compressLoop_eq {src : List UInt8} (length : src.length = zramPageSize) (maxDst : Nat)
    {fuel inIdx : Nat} (inside : inIdx ≤ zramPageSize) (enough : zramPageSize < fuel + inIdx)
    (out : List UInt8) :
    (Fits maxDst (pageTokens (src.drop inIdx)) out.length ∧
      compressLoop src maxDst fuel inIdx out =
        some (((out ++ encodeAll (pageTokens (src.drop inIdx))).length : Int),
          out ++ encodeAll (pageTokens (src.drop inIdx)))) ∨
    (¬ Fits maxDst (pageTokens (src.drop inIdx)) out.length ∧
      ∃ part, compressLoop src maxDst fuel inIdx out = some (-1, part)) := by
  induction fuel generalizing inIdx out with
  | zero => omega
  | succ fuel inductionHypothesis =>
      by_cases more : inIdx < zramPageSize
      · rcases drop_cons src inIdx (by omega) with ⟨val, _, rest⟩
        rw [rest, pageTokens_cons]
        by_cases room : out.length + 4 < maxDst
        · by_cases fits : out.length + (nextToken val (src.drop (inIdx + 1))).size ≤ maxDst
          · have positive := nextToken_expand_pos val (src.drop (inIdx + 1))
            have expandLe : inIdx + (nextToken val (src.drop (inIdx + 1))).expand.length ≤
                zramPageSize := by
              have cut := congrArg List.length (nextToken_expand val (src.drop (inIdx + 1)))
              rw [← rest, List.length_take, List.length_drop] at cut
              omega
            rw [compressLoop_succ, compressPass_token length rest room fits, Option.bind_some,
              resume, ← rest, List.drop_drop]
            have rest' := inductionHypothesis expandLe (by omega)
              (out ++ (nextToken val (src.drop (inIdx + 1))).encode)
            rw [List.length_append] at rest'
            simp only [Fits, room, fits, true_and, encodeAll_cons]
            rw [← List.append_assoc]
            exact rest'
          · refine Or.inr ⟨fun ⟨_, sizeOk, _⟩ => fits sizeOk, ?_⟩
            rcases compressPass_truncated length rest room (Nat.lt_of_not_le fits) with
              ⟨next, part, pass, _, unfinished, full⟩
            cases fuel with
            | zero => omega
            | succ fuel =>
                refine ⟨part, ?_⟩
                rw [compressLoop_succ, pass, Option.bind_some, resume, compressLoop,
                  if_pos unfinished, if_pos (by omega)]
        · refine Or.inr ⟨fun ⟨roomOk, _⟩ => room roomOk, out, ?_⟩
          rw [compressLoop, if_pos more, if_pos (by omega)]
      · refine Or.inl ?_
        rw [compressLoop, if_neg more, List.drop_eq_nil_of_le (by omega)]
        simp [Fits]

/-- `zram_compress_page` returns, and this is what. -/
theorem zramCompressPage_eq (src : Page) (maxDst : Nat) :
    (Fits maxDst (pageTokens src.val) 0 ∧
      zramCompressPage src.val maxDst =
        some (((encodeAll (pageTokens src.val)).length : Int), encodeAll (pageTokens src.val))) ∨
    (¬ Fits maxDst (pageTokens src.val) 0 ∧
      ∃ part, zramCompressPage src.val maxDst = some (-1, part)) :=
  compressLoop_eq src.property maxDst (Nat.zero_le _) (by decide) []

/-! ## The buffer -/

/-- What one pass can do to a page: return, with -1 or at the end of the page, or go on behind
the bytes it has taken, with its writes in the buffer. -/
theorem compressPass_cases {src : List UInt8} (length : src.length = zramPageSize)
    (maxDst inIdx : Nat) (out : List UInt8) :
    (∃ ret, compressPass src maxDst inIdx out = some (.returned ret out)) ∨
      ∃ next out', compressPass src maxDst inIdx out = some (.next next out') ∧ inIdx < next ∧
        out'.length ≤ maxDst := by
  by_cases more : inIdx < zramPageSize
  · by_cases room : out.length + 4 < maxDst
    · rcases drop_cons src inIdx (by omega) with ⟨val, _, rest⟩
      by_cases fits : out.length + (nextToken val (src.drop (inIdx + 1))).size ≤ maxDst
      · have positive := nextToken_expand_pos val (src.drop (inIdx + 1))
        refine Or.inr ⟨_, _, compressPass_token length rest room fits, by omega, ?_⟩
        rw [List.length_append]
        exact fits
      · rcases compressPass_truncated length rest room (Nat.lt_of_not_le fits) with
          ⟨next, part, pass, later, _, full⟩
        exact Or.inr ⟨next, part, pass, later, Nat.le_of_eq full⟩
    · refine Or.inl ⟨-1, ?_⟩
      rw [compressPass, if_pos more, if_pos (by omega)]
  · refine Or.inl ⟨out.length, ?_⟩
    rw [compressPass, if_neg more]

/-- The loop leaves the rest of the memory behind the buffer alone. -/
theorem compressLoop_length_le {src : List UInt8} (length : src.length = zramPageSize)
    {maxDst fuel inIdx : Nat} {out written : List UInt8} {ret : Int} (room : out.length ≤ maxDst)
    (returned : compressLoop src maxDst fuel inIdx out = some (ret, written)) :
    written.length ≤ maxDst := by
  induction fuel generalizing inIdx out with
  | zero => cases returned
  | succ fuel inductionHypothesis =>
      rw [compressLoop_succ] at returned
      rcases compressPass_cases length maxDst inIdx out with
        ⟨ret', pass⟩ | ⟨next, out', pass, _, room'⟩
      · rw [pass] at returned
        cases returned
        exact room
      · rw [pass] at returned
        exact inductionHypothesis room' returned

/-- What is asked of `zram_compress_page`: it returns, all its reads are in the page and all its
writes in the buffer; unless it gives up, the bytes written are tokens for exactly the page,
and there is at least one; and every pass that does not return takes a byte of the page. -/
structure StaysInBuffer (src : Page) (maxDst : Nat) : Prop where
  returns : ∃ ret out, zramCompressPage src.val maxDst = some (ret, out) ∧ out.length ≤ maxDst ∧
    (ret = -1 ∨ ret = out.length ∧ 1 ≤ ret ∧ ret ≤ maxDst ∧
      ∃ tokens : List Token, (∀ token ∈ tokens, token.WellFormed) ∧
        out = tokens.flatMap Token.encode ∧ tokens.flatMap Token.expand = src.val)
  progress : ∀ inIdx out next out',
    compressPass src.val maxDst inIdx out = some (.next next out') → inIdx < next

/-- For every page and every size of the buffer the compressor stays in its buffer and ends: each
pass takes at least a byte of the page, and each store is checked against the size. -/
theorem zramCompressPage_staysInBuffer (src : Page) (maxDst : Nat) : StaysInBuffer src maxDst where
  returns := by
    have room : ([] : List UInt8).length ≤ maxDst := Nat.zero_le _
    rcases zramCompressPage_eq src maxDst with ⟨_, returned⟩ | ⟨_, part, returned⟩
    · have bound := compressLoop_length_le src.property room returned
      have whole : (pageTokens src.val).flatMap Token.expand = src.val := expand_pageTokens src.val
      have nonempty : 0 < (encodeAll (pageTokens src.val)).length := by
        have length := src.property
        cases shape : src.val with
        | nil =>
            rw [shape] at length
            exact absurd length (by decide)
        | cons val tail =>
            rw [pageTokens_cons, encodeAll_cons, List.length_append]
            cases nextToken val tail <;> simp [Token.encode]
      refine ⟨_, _, returned, bound, Or.inr ⟨rfl, by omega, by omega, pageTokens src.val, ?_⟩⟩
      exact ⟨pageTokens_wellFormed src.val, rfl, whole⟩
    · exact ⟨-1, part, returned, compressLoop_length_le src.property room returned, Or.inl rfl⟩
  progress := by
    intro inIdx out next out' pass
    rcases compressPass_cases src.property maxDst inIdx out with ⟨ret, ended⟩ | ⟨_, _, moved, later, _⟩
    · rw [pass] at ended
      cases ended
    · rw [pass] at moved
      cases moved
      exact later

end Zram
end AuraKernel
