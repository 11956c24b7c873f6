import AuraKernel.Machine.PrefixCode
import AuraKernel.Zram.Decoder

namespace AuraKernel
namespace Zram

open Machine

/-!
# What the decompressor accepts

The tokens of the compressed format are a prefix code, so every byte string is
cut in one way into tokens, as far as it consists of tokens.  The decompressor
follows this cut until the page is full, the stream ends or no token begins.
It fails in the last case only: a stream that ends early is padded with zeros,
and whatever is behind a full page is not looked at.
-/

/-- A token of the compressed format. -/
inductive Chunk
  | zeros (count : UInt8)
  | run (count val : UInt8)
  | literal (tag : UInt8) (bytes : List UInt8) (kind : tagKind tag = .literal)
      (length_eq : (tag &&& 0x7F).toNat = bytes.length) (nonempty : bytes ≠ [])

namespace Chunk

def encode : Chunk → List UInt8
  | zeros count => [zramTagZeros, count]
  | run count val => [zramTagRun, count, val]
  | literal tag bytes _ _ _ => tag :: bytes

def expand : Chunk → List UInt8
  | zeros count => List.replicate count.toNat 0
  | run count val => List.replicate count.toNat val
  | literal _ bytes _ _ _ => bytes

/-- A run behind its tag. -/
def firstRun : TokenKind → List UInt8 → Option (Chunk × List UInt8)
  | .zeros, count :: rest => some (zeros count, rest)
  | .run, count :: val :: rest => some (run count val, rest)
  | _, _ => none

theorem length_take_of_le {bytes : List UInt8} {n : Nat} (le : n ≤ bytes.length) :
    (bytes.take n).length = n := by
  rw [List.length_take, Nat.min_eq_left le]

theorem take_ne_nil {bytes : List UInt8} {n : Nat} (fits : 0 < n ∧ n ≤ bytes.length) :
    bytes.take n ≠ [] := by
  apply List.ne_nil_of_length_pos
  rw [length_take_of_le fits.2]
  exact fits.1

/-- The first token of a stream, and the rest. -/
def first : List UInt8 → Option (Chunk × List UInt8)
  | [] => none
  | tag :: rest =>
      if kind : tagKind tag = .literal then
        if fits : 0 < (tag &&& 0x7F).toNat ∧ (tag &&& 0x7F).toNat ≤ rest.length then
          some (literal tag (rest.take (tag &&& 0x7F).toNat) kind
            (length_take_of_le fits.2).symm (take_ne_nil fits),
            rest.drop (tag &&& 0x7F).toNat)
        else none
      else firstRun (tagKind tag) rest

end Chunk

theorem tagKind_eq_zeros {tag : UInt8} (kind : tagKind tag = .zeros) : tag = zramTagZeros := by
  by_contra other
  unfold tagKind at kind
  rw [if_neg other] at kind
  split at kind <;> cases kind

theorem tagKind_eq_run {tag : UInt8} (kind : tagKind tag = .run) : tag = zramTagRun := by
  by_contra other
  unfold tagKind at kind
  rw [if_neg (fun same => by rw [same] at kind; exact absurd kind (by decide)), if_neg other] at kind
  cases kind

namespace Chunk

theorem first_encode (chunk : Chunk) (rest : List UInt8) :
    first (chunk.encode ++ rest) = some (chunk, rest) := by
  cases chunk with
  | zeros count => rfl
  | run count val => rfl
  | literal tag bytes kind length_eq nonempty =>
      have positive := List.length_pos_iff.mpr nonempty
      have fits : 0 < (tag &&& 0x7F).toNat ∧ (tag &&& 0x7F).toNat ≤ (bytes ++ rest).length := by
        rw [List.length_append]
        omega
      change first (tag :: (bytes ++ rest)) = _
      rw [first, dif_pos kind, dif_pos fits]
      simp only [length_eq, List.take_left', List.drop_left']

/-- Where a token is read, the stream begins with it. -/
theorem first_eq {stream rest : List UInt8} {chunk : Chunk}
    (read : first stream = some (chunk, rest)) : stream = chunk.encode ++ rest := by
  cases stream with
  | nil => cases read
  | cons tag more =>
      rw [first] at read
      by_cases kind : tagKind tag = .literal
      · rw [dif_pos kind] at read
        by_cases fits : 0 < (tag &&& 0x7F).toNat ∧ (tag &&& 0x7F).toNat ≤ more.length
        · rw [dif_pos fits] at read
          cases read
          exact congrArg (tag :: ·) (List.take_append_drop _ more).symm
        · rw [dif_neg fits] at read
          cases read
      · rw [dif_neg kind] at read
        cases isRun : tagKind tag with
        | literal => exact absurd isRun kind
        | zeros =>
            rw [isRun] at read
            match more, read with
            | count :: more, read =>
                cases read
                rw [tagKind_eq_zeros isRun]
                rfl
        | run =>
            rw [isRun] at read
            match more, read with
            | count :: val :: more, read =>
                cases read
                rw [tagKind_eq_run isRun]
                rfl

/-- Where no token is read, the token is cut off or an empty block. -/
theorem first_eq_none {tag : UInt8} {more : List UInt8} (stuck : first (tag :: more) = none) :
    tagKind tag = .zeros ∧ more.length < 1 ∨ tagKind tag = .run ∧ more.length < 2 ∨
      tagKind tag = .literal ∧
        ((tag &&& 0x7F).toNat = 0 ∨ more.length < (tag &&& 0x7F).toNat) := by
  rw [first] at stuck
  cases kind : tagKind tag with
  | literal =>
      rw [dif_pos kind] at stuck
      by_cases fits : 0 < (tag &&& 0x7F).toNat ∧ (tag &&& 0x7F).toNat ≤ more.length
      · rw [dif_pos fits] at stuck
        cases stuck
      · exact Or.inr (Or.inr ⟨rfl, by omega⟩)
  | zeros =>
      rw [dif_neg (by rw [kind]; decide), kind] at stuck
      match more, stuck with
      | [], _ => exact Or.inl ⟨rfl, by decide⟩
  | run =>
      rw [dif_neg (by rw [kind]; decide), kind] at stuck
      match more, stuck with
      | [], _ => exact Or.inr (Or.inl ⟨rfl, by simp⟩)
      | [_], _ => exact Or.inr (Or.inl ⟨rfl, by simp⟩)

end Chunk

/-- The tokens are a prefix code. -/
def chunkCode : PrefixCode Chunk UInt8 where
  encode := Chunk.encode
  first := Chunk.first
  first_iff stream chunk rest :=
    ⟨Chunk.first_eq, fun shape => shape ▸ chunk.first_encode rest⟩
  encode_ne_nil chunk := by cases chunk <;> exact List.cons_ne_nil _ _

/-- The page that a list of tokens stands for. -/
def expandAll (chunks : List Chunk) : List UInt8 := chunks.flatMap Chunk.expand

/-! ## One pass -/

section Passes

variable {src out more : List UInt8} {fuel inIdx : Nat}

theorem length_encode_pos (chunk : Chunk) : 0 < chunk.encode.length :=
  List.length_pos_iff.mpr (chunkCode.encode_ne_nil chunk)

theorem decompressLoop_chunk {chunk : Chunk} (rest : src.drop inIdx = chunk.encode ++ more)
    (room : out.length < zramPageSize) :
    ∃ next, decompressLoop src (fuel + 1) inIdx out =
        decompressLoop src fuel next (out ++ chunk.expand.take (zramPageSize - out.length)) ∧
      (out.length + chunk.expand.length ≤ zramPageSize →
        next = inIdx + chunk.encode.length) := by
  cases chunk with
  | zeros count => exact ⟨inIdx + 2, decompressLoop_zeros rest room, fun _ => rfl⟩
  | run count val => exact ⟨inIdx + 3, decompressLoop_run rest room, fun _ => rfl⟩
  | literal tag bytes kind length_eq nonempty =>
      exact decompressLoop_literal kind length_eq nonempty rest room

/-- Behind the last token the page is padded. -/
theorem decompressLoop_ended (rest : src.drop inIdx = []) (room : out.length ≤ zramPageSize) :
    decompressLoop src (fuel + 1) inIdx out =
      some (0, out ++ List.replicate (zramPageSize - out.length) 0) := by
  have ended : src.length ≤ inIdx := List.drop_eq_nil_iff.mp rest
  rw [decompressLoop, if_neg (by omega), fillLoop_eq room, List.take_of_length_le (by simp)]

/-- Where no token begins, the call fails. -/
theorem decompressLoop_stuck (rest : src.drop inIdx = more) (nonempty : more ≠ [])
    (stuck : chunkCode.first more = none) (room : out.length < zramPageSize) :
    decompressLoop src (fuel + 1) inIdx out = some (-1, out) := by
  cases more with
  | nil => exact absurd rfl nonempty
  | cons tag more =>
      have split : src.drop inIdx = [tag] ++ more := rest
      have total := length_of_drop split (by simp)
      have read := getElem?_of_drop split (by simp : 0 < 1)
      simp only [List.length_cons, List.length_nil] at total
      simp only [Nat.add_zero, List.getElem?_cons_zero] at read
      rw [decompressLoop, if_pos ⟨by omega, room⟩, read]
      simp only [Option.bind_eq_bind, Option.bind_some]
      rcases Chunk.first_eq_none stuck with ⟨kind, few⟩ | ⟨kind, few⟩ | ⟨kind, few⟩
      all_goals
        simp only [kind]
        exact if_pos (by omega)

end Passes

/-! ## Whole streams -/

/-- What the loop returns on the rest of a stream, from the bytes written so far. -/
inductive DecodesTo (rest out : List UInt8) : Int × List UInt8 → Prop
  | padded (chunks : List Chunk) (shape : rest = chunkCode.encodeAll chunks)
      (short : out.length + (expandAll chunks).length < zramPageSize) :
      DecodesTo rest out (0, out ++ expandAll chunks ++
        List.replicate (zramPageSize - (out ++ expandAll chunks).length) 0)
  | filled (chunks : List Chunk) (more : List UInt8)
      (shape : rest = chunkCode.encodeAll chunks ++ more)
      (full : zramPageSize ≤ out.length + (expandAll chunks).length) :
      DecodesTo rest out (0, (out ++ expandAll chunks).take zramPageSize)
  | rejected (chunks : List Chunk) (more : List UInt8)
      (shape : rest = chunkCode.encodeAll chunks ++ more)
      (short : out.length + (expandAll chunks).length < zramPageSize)
      (nonempty : more ≠ []) (stuck : chunkCode.first more = none) :
      DecodesTo rest out (-1, out ++ expandAll chunks)

section Streams

variable {src rest out : List UInt8}

theorem DecodesTo.cons {chunk : Chunk} {result : Int × List UInt8}
    (decodes : DecodesTo rest (out ++ chunk.expand) result) :
    DecodesTo (chunk.encode ++ rest) out result := by
  have expanded : ∀ chunks, out ++ chunk.expand ++ expandAll chunks =
      out ++ expandAll (chunk :: chunks) := fun chunks => List.append_assoc _ _ _
  have counted : ∀ chunks, (out ++ chunk.expand).length + (expandAll chunks).length =
      out.length + (expandAll (chunk :: chunks)).length := by
    intro chunks
    rw [← List.length_append, ← List.length_append, expanded]
  cases decodes with
  | padded chunks shape short =>
      rw [expanded]
      exact DecodesTo.padded (chunk :: chunks) (by rw [shape]; rfl) (counted chunks ▸ short)
  | filled chunks more shape full =>
      rw [expanded]
      exact DecodesTo.filled (chunk :: chunks) more
        (by rw [shape, ← List.append_assoc]; rfl) (counted chunks ▸ full)
  | rejected chunks more shape short nonempty stuck =>
      rw [expanded]
      exact DecodesTo.rejected (chunk :: chunks) more
        (by rw [shape, ← List.append_assoc]; rfl) (counted chunks ▸ short) nonempty stuck

/-- The loop from any index of the stream on. -/
theorem decompressLoop_decodes {fuel inIdx : Nat} (room : out.length ≤ zramPageSize)
    (inside : inIdx ≤ src.length) (enough : src.length < fuel + inIdx) :
    ∃ result, decompressLoop src fuel inIdx out = some result ∧
      DecodesTo (src.drop inIdx) out result := by
  induction fuel generalizing inIdx out with
  | zero => omega
  | succ fuel inductionHypothesis =>
      by_cases full : out.length = zramPageSize
      · have all := DecodesTo.filled [] (src.drop inIdx) rfl
          (show zramPageSize ≤ out.length + 0 by omega)
        rw [show expandAll [] = [] from rfl, List.append_nil, ← full, List.take_length] at all
        exact ⟨_, decompressLoop_full full, all⟩
      have open' : out.length < zramPageSize := by omega
      cases read : chunkCode.first (src.drop inIdx) with
      | none =>
          by_cases ended : src.drop inIdx = []
          · have all := DecodesTo.padded [] ended open'
            rw [show expandAll [] = [] from rfl, List.append_nil] at all
            exact ⟨_, decompressLoop_ended ended room, all⟩
          · have all := DecodesTo.rejected [] (src.drop inIdx) rfl open' ended read
            rw [show expandAll [] = [] from rfl, List.append_nil] at all
            exact ⟨_, decompressLoop_stuck rfl ended read open', all⟩
      | some pair =>
          rcases pair with ⟨chunk, more⟩
          have shape : src.drop inIdx = chunk.encode ++ more := Chunk.first_eq read
          have positive := length_encode_pos chunk
          have total := length_of_drop shape positive
          rcases @decompressLoop_chunk src out more fuel inIdx chunk shape open' with
            ⟨next, pass, nextEq⟩
          rw [pass, shape]
          by_cases fits : out.length + chunk.expand.length ≤ zramPageSize
          · have behind : src.drop (inIdx + chunk.encode.length) = more := by
              rw [← List.drop_drop, shape, List.drop_left]
            rw [nextEq fits, List.take_of_length_le (by omega)]
            rcases @inductionHypothesis (out ++ chunk.expand) (inIdx + chunk.encode.length)
              (by rw [List.length_append]; exact fits) (by omega) (by omega) with
              ⟨result, returned, decodes⟩
            rw [behind] at decodes
            exact ⟨result, returned, decodes.cons⟩
          · -- the page is full in the middle of this token
            cases fuel with
            | zero => omega
            | succ fuel =>
                have whole : (out ++ chunk.expand.take (zramPageSize - out.length)).length =
                    zramPageSize := by
                  rw [List.length_append, List.length_take]
                  omega
                have all := DecodesTo.filled [chunk] more
                  (by rw [PrefixCode.encodeAll_singleton])
                  (show zramPageSize ≤ out.length + (chunk.expand ++ []).length by
                    rw [List.append_nil]
                    omega)
                rw [show expandAll [chunk] = chunk.expand from List.append_nil _,
                  List.take_append, List.take_of_length_le room] at all
                exact ⟨_, decompressLoop_full whole, all⟩

/-- `zram_decompress_page` returns on every byte string. -/
theorem zramDecompressPage_decodes (src : List UInt8) :
    ∃ result, zramDecompressPage src = some result ∧ DecodesTo src [] result :=
  decompressLoop_decodes (Nat.zero_le _) (Nat.zero_le _) (Nat.lt_succ_self _)

end Streams

/-- On every byte string `zram_decompress_page` returns after reads inside it only, writes at
most a page, and has written all of it if it returns 0. -/
theorem zramDecompressPage_safe (src : List UInt8) :
    ∃ ret out, zramDecompressPage src = some (ret, out) ∧ out.length ≤ zramPageSize ∧
      (ret = 0 → out.length = zramPageSize) := by
  rcases zramDecompressPage_decodes src with ⟨result, returned, decodes⟩
  cases decodes with
  | padded chunks _ short =>
      have whole : (([] ++ expandAll chunks) ++
          List.replicate (zramPageSize - ([] ++ expandAll chunks).length) (0 : UInt8)).length =
            zramPageSize := by
        rw [List.nil_append, List.length_append, List.length_replicate]
        rw [List.length_nil, Nat.zero_add] at short
        omega
      exact ⟨_, _, returned, Nat.le_of_eq whole, fun _ => whole⟩
  | filled chunks more _ full =>
      have whole : (([] ++ expandAll chunks).take zramPageSize).length = zramPageSize := by
        rw [List.nil_append, List.length_take]
        rw [List.length_nil, Nat.zero_add] at full
        omega
      exact ⟨_, _, returned, Nat.le_of_eq whole, fun _ => whole⟩
  | rejected chunks more _ short =>
      refine ⟨_, _, returned, ?_, fun null => absurd null (by decide)⟩
      rw [List.length_append]
      omega

/-! ## Corruption -/

/-- The stream consists of tokens for exactly one page. -/
def ExactStream (src : List UInt8) : Prop :=
  ∃ chunks, src = chunkCode.encodeAll chunks ∧ (expandAll chunks).length = zramPageSize

/-- The stream consists of tokens for less than a page. -/
def ShortStream (src : List UInt8) : Prop :=
  ∃ chunks, src = chunkCode.encodeAll chunks ∧ (expandAll chunks).length < zramPageSize

/-- The stream begins with tokens for a page or more. -/
def FillsPage (src : List UInt8) : Prop :=
  ∃ chunks more, src = chunkCode.encodeAll chunks ++ more ∧
    zramPageSize ≤ (expandAll chunks).length

/-- Corruption is reported: 0 for exactly the streams of one page, a negative result for all
others. -/
structure RejectsCorruption (src : List UInt8) : Prop where
  accepts_iff : (∃ out, zramDecompressPage src = some (0, out)) ↔ ExactStream src
  negative : ¬ ExactStream src → ∃ ret out, zramDecompressPage src = some (ret, out) ∧ ret < 0

theorem ExactStream.fillsPage {src : List UInt8} (whole : ExactStream src) : FillsPage src := by
  rcases whole with ⟨chunks, shape, length⟩
  exact ⟨chunks, [], by rw [List.append_nil]; exact shape, Nat.le_of_eq length.symm⟩

theorem ShortStream.not_exact {src : List UInt8} (short : ShortStream src) :
    ¬ ExactStream src := by
  rintro ⟨chunks, shape, length⟩
  rcases short with ⟨chunks', shape', length'⟩
  rw [PrefixCode.encodeAll_injective (shape.symm.trans shape')] at length
  omega

theorem length_expandAll_append (chunks more : List Chunk) :
    (expandAll (chunks ++ more)).length = (expandAll chunks).length + (expandAll more).length := by
  unfold expandAll
  rw [List.flatMap_append, List.length_append]

/-- The accepted streams: those that end early, and those that fill the page. -/
theorem zramDecompressPage_accepts (src : List UInt8) :
    ((∃ out, zramDecompressPage src = some (0, out)) ↔ ShortStream src ∨ FillsPage src) ∧
      (¬ (ShortStream src ∨ FillsPage src) →
        ∃ out, zramDecompressPage src = some (-1, out)) := by
  rcases zramDecompressPage_decodes src with ⟨result, returned, decodes⟩
  cases decodes with
  | padded chunks shape short =>
      have isShort : ShortStream src := ⟨chunks, shape, by
        rw [List.length_nil, Nat.zero_add] at short
        exact short⟩
      exact ⟨iff_of_true ⟨_, returned⟩ (Or.inl isShort), fun other => absurd (Or.inl isShort) other⟩
  | filled chunks more shape full =>
      have fills : FillsPage src := ⟨chunks, more, shape, by
        rw [List.length_nil, Nat.zero_add] at full
        exact full⟩
      exact ⟨iff_of_true ⟨_, returned⟩ (Or.inr fills), fun other => absurd (Or.inr fills) other⟩
  | rejected chunks more shape short nonempty stuck =>
      rw [List.length_nil, Nat.zero_add] at short
      refine ⟨iff_of_false ?_ ?_, fun _ => ⟨_, returned⟩⟩
      · rintro ⟨out, accepted⟩
        rw [returned] at accepted
        cases accepted
      · -- the tokens stop where the first one is broken
        rintro (⟨all, shape', _⟩ | ⟨front, behind, shape', full⟩)
        · have same : chunkCode.encodeAll all ++ [] = chunkCode.encodeAll chunks ++ more := by
            rw [List.append_nil, ← shape', shape]
          rcases PrefixCode.prefix_of_stuck PrefixCode.first_nil same with ⟨rest, rfl⟩
          rw [PrefixCode.encodeAll_append, List.append_nil] at same
          have restEq := List.append_cancel_left same
          cases rest with
          | nil => exact nonempty restEq.symm
          | cons chunk rest =>
              rw [← restEq, PrefixCode.encodeAll_cons, PrefixCode.first_encode] at stuck
              cases stuck
        · rcases PrefixCode.prefix_of_stuck stuck (shape.symm.trans shape') with ⟨rest, rfl⟩
          rw [length_expandAll_append] at short
          omega

/-- Corruption is reported if and only if the stream is not one that ends early, and fills the
page only if it is exactly the tokens of one page. -/
theorem rejectsCorruption_iff (src : List UInt8) :
    RejectsCorruption src ↔ ¬ ShortStream src ∧ (FillsPage src → ExactStream src) := by
  rcases zramDecompressPage_accepts src with ⟨accepted, rejected⟩
  constructor
  · intro rejects
    have same := accepted.symm.trans rejects.accepts_iff
    exact ⟨fun short => short.not_exact (same.mp (Or.inl short)),
      fun fills => same.mp (Or.inr fills)⟩
  · rintro ⟨notShort, onlyWhole⟩
    have onlyExact : ShortStream src ∨ FillsPage src ↔ ExactStream src := by
      rw [or_iff_right notShort]
      exact ⟨onlyWhole, ExactStream.fillsPage⟩
    refine ⟨accepted.trans onlyExact, fun other => ?_⟩
    rcases rejected (fun fine => other (onlyExact.mp fine)) with ⟨out, returned⟩
    exact ⟨-1, out, returned, by decide⟩

/-- The empty stream is accepted, as a page of zeros. -/
theorem not_rejectsCorruption_empty :
    zramDecompressPage [] = some (0, List.replicate zramPageSize 0) ∧ ¬ RejectsCorruption [] := by
  have returned : zramDecompressPage [] = some (0, List.replicate zramPageSize 0) :=
    @decompressLoop_ended [] [] 0 0 rfl (Nat.zero_le _)
  have short : ShortStream [] := ⟨[], rfl, by decide⟩
  exact ⟨returned, fun rejects => short.not_exact (rejects.accepts_iff.mp ⟨_, returned⟩)⟩

end Zram
end AuraKernel
