import AuraKernel.Drivers.Keyboard
import AuraKernel.Machine.Ring
import Mathlib.Logic.Relation

namespace AuraKernel
namespace Drivers

open Machine

/-!
# No key is lost

The handler owns the head and the main loop owns the tail.  Between two accesses
the main loop may hold an old value of the head, which only makes it see fewer
characters than there are, but never an old value of the tail.
-/

/-- The unread characters as the indices delimit them, oldest first. -/
def Kbd.unread (k : Kbd) : List UInt8 :=
  (List.range ((k.head - k.tail) % kbdBufSize).toNat).map fun i : Nat =>
    k.buf ((k.tail + (i : Int)) % kbdBufSize)

/-- The character of a make code, 0 for everything else. -/
def makeChar (scancode : UInt8) : UInt8 :=
  if scancode &&& 0x80 ≠ 0 then 0 else scancodeChar scancode

/-- The ring is a bounded first-in-first-out queue between the handler and the main loop. -/
structure Lossless (s : System) : Prop where
  fifo : s.accepted = s.returned ++ s.kbd.unread
  head : 0 ≤ s.kbd.head ∧ s.kbd.head < kbdBufSize
  tail : 0 ≤ s.kbd.tail ∧ s.kbd.tail < kbdBufSize
  bounded : s.kbd.unread.length ≤ 31
  chars : 0 ∉ s.returned
  key : ∀ scancode, makeChar scancode ≠ 0 →
    (s.kbd.unread.length < 31 ∧ stored scancode s.kbd = [makeChar scancode] ∧
        (keyboardHandler scancode s.kbd).unread = s.kbd.unread ++ [makeChar scancode]) ∨
      (s.kbd.unread.length = 31 ∧ stored scancode s.kbd = [] ∧
        keyboardHandler scancode s.kbd = s.kbd)

/-! ## The indices as counters -/

/-- The driver's variables after `written` characters were stored and `read` were taken out. -/
structure Counted (k : Kbd) (read written : Nat) : Prop where
  counts : RingCounts 32 read written
  head : k.head = ((written % 32 : Nat) : Int)
  tail : k.tail = ((read % 32 : Nat) : Int)

/-- Moving an index on is counting. -/
theorem next_index (count : Nat) :
    (((count % 32 : Nat) : Int) + 1).tmod kbdBufSize = (((count + 1) % 32 : Nat) : Int) := by
  unfold kbdBufSize
  rw [Int.tmod_eq_emod_of_nonneg (by omega)]
  omega

namespace Counted

variable {k : Kbd} {read written : Nat}

theorem cells_eq (k : Kbd) (read written : Nat) (counted : Counted k read written) :
    k.unread = ringContents 32 (fun index => k.buf index) read written := by
  have le := counted.counts.le
  have room := counted.counts.room
  unfold Kbd.unread ringContents
  rw [counted.head, counted.tail, List.range'_eq_map_range, List.map_map]
  have length : ((((written % 32 : Nat) : Int) - ((read % 32 : Nat) : Int)) % kbdBufSize).toNat =
      written - read := by
    unfold kbdBufSize
    omega
  rw [length]
  apply List.map_congr_left
  intro i _
  refine congrArg k.buf ?_
  unfold kbdBufSize
  simp only [Int.natCast_emod, Int.natCast_add]
  omega

theorem unread_length (counted : Counted k read written) :
    k.unread.length = written - read := by
  rw [cells_eq k read written counted]
  exact ringContents_length _ _ _ _

theorem full_iff (counted : Counted k read written) :
    (k.head + 1).tmod kbdBufSize = k.tail ↔ written + 1 = read + 32 := by
  rw [counted.head, counted.tail, next_index, Int.ofNat_inj]
  exact counted.counts.full_iff

end Counted

/-! ## The handler -/

theorem scancodeChar_of_ge {scancode : UInt8} (large : ¬ scancode < 128) :
    scancodeChar scancode = 0 := by
  have bound : 128 ≤ scancode.toNat := UInt8.le_iff_toNat_le.mp (UInt8.not_lt.mp large)
  have length : scancodeAscii.length = 59 := by decide
  unfold scancodeChar
  rw [List.getD_eq_getElem?_getD, List.getElem?_eq_none (by omega)]
  rfl

/-- The handler ignores the scancode, finds the ring full, or stores the character. -/
theorem keyboardHandler_cases (scancode : UInt8) (k : Kbd) :
    (keyboardHandler scancode k = k ∧
        (makeChar scancode = 0 ∨ (k.head + 1).tmod kbdBufSize = k.tail)) ∨
      (makeChar scancode ≠ 0 ∧ (k.head + 1).tmod kbdBufSize ≠ k.tail ∧
        scancodeChar scancode = makeChar scancode ∧
        keyboardHandler scancode k = { k with
          buf := Function.update k.buf k.head (makeChar scancode)
          head := (k.head + 1).tmod kbdBufSize }) := by
  unfold keyboardHandler makeChar
  by_cases breaks : scancode &&& 0x80 ≠ 0
  · rw [if_pos breaks, if_pos breaks]
    exact Or.inl ⟨rfl, Or.inl rfl⟩
  rw [if_neg breaks, if_neg breaks]
  by_cases small : scancode < 128
  · rw [if_pos small]
    dsimp only
    by_cases char : scancodeChar scancode = 0
    · rw [if_neg (not_not.mpr char)]
      exact Or.inl ⟨rfl, Or.inl char⟩
    · rw [if_pos char]
      by_cases full : (k.head + 1).tmod kbdBufSize = k.tail
      · rw [if_neg (not_not.mpr full)]
        exact Or.inl ⟨rfl, Or.inr full⟩
      · rw [if_pos full]
        exact Or.inr ⟨char, full, rfl, rfl⟩
  · rw [if_neg small]
    exact Or.inl ⟨rfl, Or.inl (scancodeChar_of_ge small)⟩

/-- What the handler does in terms of the counters. -/
inductive Handled (k : Kbd) (read written : Nat) (scancode : UInt8) : Prop
  | ignored (same : keyboardHandler scancode k = k) (nothing : stored scancode k = [])
      (reason : makeChar scancode = 0 ∨ written + 1 = read + 32) : Handled k read written scancode
  | accepted (char : makeChar scancode ≠ 0) (notFull : written + 1 ≠ read + 32)
      (new : stored scancode k = [makeChar scancode])
      (counted : Counted (keyboardHandler scancode k) read (written + 1))
      (unread : (keyboardHandler scancode k).unread = k.unread ++ [makeChar scancode])
      (kept : ∀ count, read ≤ count → count < written →
        (keyboardHandler scancode k).buf ((count % 32 : Nat) : Int) =
          k.buf ((count % 32 : Nat) : Int)) : Handled k read written scancode

theorem Counted.handled {k : Kbd} {read written : Nat} (counted : Counted k read written)
    (scancode : UInt8) : Handled k read written scancode := by
  rcases keyboardHandler_cases scancode k with ⟨same, reason⟩ | ⟨char, notFull, named, moved⟩
  · refine Handled.ignored same ?_ (reason.imp_right counted.full_iff.mp)
    unfold stored
    rw [same, if_pos rfl]
  · have room := fun full => notFull (counted.full_iff.mpr full)
    have counted' : Counted (keyboardHandler scancode k) read (written + 1) := by
      refine ⟨counted.counts.push room, ?_, ?_⟩
      · rw [moved, counted.head]
        exact next_index written
      · rw [moved]
        exact counted.tail
    have elsewhere : ∀ index : Nat, index ≠ written % 32 →
        (keyboardHandler scancode k).buf index = k.buf index := by
      intro index different
      rw [moved, counted.head]
      exact Function.update_of_ne (fun same => different (Int.ofNat_inj.mp same)) _ _
    have here : (keyboardHandler scancode k).buf ((written % 32 : Nat) : Int) =
        makeChar scancode := by
      rw [moved, ← counted.head]
      exact Function.update_self _ _ _
    refine Handled.accepted char room ?_ counted' ?_ ?_
    · unfold stored
      rw [named, if_neg]
      rw [counted'.head, counted.head, Int.ofNat_inj]
      omega
    · have pushed := @ringContents_push UInt8 32 read written
        (fun index => k.buf index) (fun index => (keyboardHandler scancode k).buf index)
        counted.counts elsewhere
      rw [counted'.cells_eq, counted.cells_eq, pushed]
      exact congrArg (fun c => _ ++ [c]) here
    · intro count low high
      exact elsewhere _ (counted.counts.index_ne low high)

/-! ## The invariant -/

/-- What the main loop knows at each point of its functions. -/
def PcInv (k : Kbd) (read written : Nat) : Pc → Prop
  | .idle => True
  | .tailFirst _ tail => tail = k.tail
  | .headFirst _ head => ∃ seen, read ≤ seen ∧ seen ≤ written ∧ head = ((seen % 32 : Nat) : Int)
  | .nonEmpty => read < written
  | .index tail => tail = k.tail ∧ read < written
  | .cell c => c = k.buf k.tail ∧ read < written
  | .advance c tail => c = k.buf k.tail ∧ tail = k.tail ∧ read < written

structure KeyInv (s : System) : Prop where
  counted : Counted s.kbd s.returned.length s.accepted.length
  fifo : s.accepted = s.returned ++ s.kbd.unread
  chars : 0 ∉ s.accepted
  pc : PcInv s.kbd s.returned.length s.accepted.length s.pc

/-- An interrupt does not disturb what the main loop knows. -/
theorem PcInv.handler {k k' : Kbd} {read written written' : Nat} (counted : Counted k read written)
    (tail : k'.tail = k.tail) (le : written ≤ written')
    (kept : ∀ count, read ≤ count → count < written →
      k'.buf ((count % 32 : Nat) : Int) = k.buf ((count % 32 : Nat) : Int)) {pc : Pc}
    (known : PcInv k read written pc) : PcInv k' read written' pc := by
  have oldest : read < written → k'.buf k'.tail = k.buf k.tail := by
    intro more
    rw [tail, counted.tail]
    exact kept read (Nat.le_refl _) more
  cases pc with
  | idle => trivial
  | tailFirst call t => exact known.trans tail.symm
  | headFirst call h =>
      rcases known with ⟨seen, low, high, same⟩
      exact ⟨seen, low, Nat.le_trans high le, same⟩
  | nonEmpty => exact Nat.lt_of_lt_of_le known le
  | index t => exact ⟨known.1.trans tail.symm, Nat.lt_of_lt_of_le known.2 le⟩
  | cell c => exact ⟨known.1.trans (oldest known.2).symm, Nat.lt_of_lt_of_le known.2 le⟩
  | advance c t =>
      rcases known with ⟨char, index, more⟩
      exact ⟨char.trans (oldest more).symm, index.trans tail.symm, Nat.lt_of_lt_of_le more le⟩

/-- The comparison of the tail with a head that was current at some time since. -/
theorem pcInv_compared {k : Kbd} {read written seen : Nat} {call : Call} {tail head : Int}
    (low : read ≤ seen) (high : seen ≤ written)
    (tailEq : tail = ((read % 32 : Nat) : Int)) (headEq : head = ((seen % 32 : Nat) : Int)) :
    PcInv k read written (compared call tail head) := by
  cases call with
  | hasKey => trivial
  | getchar =>
      unfold compared
      by_cases same : tail = head
      · rw [if_pos same]
        trivial
      · rw [if_neg same]
        refine Nat.lt_of_lt_of_le (Nat.lt_of_le_of_ne low ?_) high
        rintro rfl
        exact same (tailEq.trans headEq.symm)

theorem KeyInv.irq {s : System} (inv : KeyInv s) (scancode : UInt8) :
    KeyInv { s with
      kbd := keyboardHandler scancode s.kbd
      accepted := s.accepted ++ stored scancode s.kbd } := by
  cases inv.counted.handled scancode with
  | ignored same nothing _ =>
      rw [same, nothing, List.append_nil]
      exact inv
  | accepted char notFull new counted unread kept =>
      rw [new]
      have length : (s.accepted ++ [makeChar scancode]).length = s.accepted.length + 1 :=
        List.length_append
      constructor
      case counted =>
        simp only [length]
        exact counted
      case fifo =>
        simp only [unread]
        rw [← List.append_assoc, ← inv.fifo]
      case chars =>
        intro null
        rcases List.mem_append.mp null with old | isNew
        · exact inv.chars old
        · exact char (List.mem_singleton.mp isNew).symm
      case pc =>
        simp only [length]
        refine inv.pc.handler inv.counted ?_ (Nat.le_succ _) kept
        rw [counted.tail, inv.counted.tail]

/-- `kbd_tail = (kbd_tail + 1) % KBD_BUF_SIZE` with the character that is returned -/
theorem KeyInv.writeTail {s : System} (inv : KeyInv s) {c : UInt8} {tail : Int}
    (here : s.pc = .advance c tail) :
    KeyInv { s with
      kbd := { s.kbd with tail := (tail + 1).tmod kbdBufSize }
      pc := .idle
      returned := s.returned ++ [c] } := by
  have known := inv.pc
  rw [here] at known
  rcases known with ⟨char, index, more⟩
  have length : (s.returned ++ [c]).length = s.returned.length + 1 := List.length_append
  have moved : (tail + 1).tmod kbdBufSize = (((s.returned.length + 1) % 32 : Nat) : Int) := by
    rw [index, inv.counted.tail]
    exact next_index _
  have counted : Counted { s.kbd with tail := (tail + 1).tmod kbdBufSize } (s.returned.length + 1)
      s.accepted.length :=
    ⟨inv.counted.counts.pop more, inv.counted.head, moved⟩
  have oldest : s.kbd.unread =
      c :: Kbd.unread { s.kbd with tail := (tail + 1).tmod kbdBufSize } := by
    rw [inv.counted.cells_eq, counted.cells_eq, ringContents_pop more, char, inv.counted.tail]
  constructor
  case counted =>
    simp only [length]
    exact counted
  case fifo =>
    have fifo := inv.fifo
    rw [oldest] at fifo
    simp only [List.append_assoc, List.singleton_append]
    exact fifo
  case chars => exact inv.chars
  case pc => trivial

theorem KeyInv.step {s s' : System} (inv : KeyInv s) (step : System.Step s s') : KeyInv s' := by
  have known := inv.pc
  have counts := inv.counted.counts
  cases step with
  | irq scancode => exact inv.irq scancode
  | tailFirst call here => exact { inv with pc := rfl }
  | headFirst call here =>
      exact { inv with pc := ⟨_, counts.le, Nat.le_refl _, inv.counted.head⟩ }
  | @thenHead call tail here =>
      rw [here] at known
      have known' : PcInv s.kbd _ _ (compared call tail s.kbd.head) :=
        pcInv_compared counts.le (Nat.le_refl _) (known.trans inv.counted.tail) inv.counted.head
      exact { inv with pc := known' }
  | @thenTail call head here =>
      rw [here] at known
      rcases known with ⟨seen, low, high, headEq⟩
      have known' : PcInv s.kbd _ _ (compared call s.kbd.tail head) :=
        pcInv_compared low high inv.counted.tail headEq
      exact { inv with pc := known' }
  | readIndex here =>
      rw [here] at known
      exact { inv with pc := ⟨rfl, known⟩ }
  | readCell here =>
      rw [here] at known
      exact { inv with pc := ⟨congrArg s.kbd.buf known.1, known.2⟩ }
  | readTail here =>
      rw [here] at known
      exact { inv with pc := ⟨known.1, rfl, known.2⟩ }
  | writeTail here => exact inv.writeTail here

theorem keyInv_init (buf : Int → UInt8) : KeyInv (System.init buf) where
  counted := ⟨RingCounts.zero (by decide), rfl, rfl⟩
  fifo := rfl
  chars := List.not_mem_nil
  pc := trivial

theorem reachable_keyInv {buf : Int → UInt8} {s : System}
    (run : Relation.ReflTransGen System.Step (System.init buf) s) : KeyInv s := by
  induction run with
  | refl => exact keyInv_init buf
  | tail _ step inductionHypothesis => exact inductionHypothesis.step step

theorem KeyInv.lossless {s : System} (inv : KeyInv s) : Lossless s := by
  have length := inv.counted.unread_length
  have room := inv.counted.counts.room
  have le := inv.counted.counts.le
  constructor
  case fifo => exact inv.fifo
  case head =>
    rw [inv.counted.head]
    unfold kbdBufSize
    omega
  case tail =>
    rw [inv.counted.tail]
    unfold kbdBufSize
    omega
  case bounded => omega
  case chars =>
    intro null
    apply inv.chars
    rw [inv.fifo]
    exact List.mem_append_left _ null
  case key =>
    intro scancode char
    cases inv.counted.handled scancode with
    | ignored same nothing reason =>
        have full := reason.resolve_left char
        exact Or.inr ⟨by omega, nothing, same⟩
    | accepted _ notFull new _ unread _ => exact Or.inl ⟨by omega, new, unread⟩

/-- Whenever interrupts arrive, the main loop gets the characters that the handler
has stored, in order and each once; the rest of them is still in the ring, and a key
is dropped only when 31 characters are unread. -/
theorem reachable_lossless {buf : Int → UInt8} {s : System}
    (run : Relation.ReflTransGen System.Step (System.init buf) s) : Lossless s :=
  (reachable_keyInv run).lossless

/-- A key arrives between the two reads of a comparison and is returned. -/
theorem reachable_lossless_small :
    ∃ s, Lossless s ∧ s.accepted = [97, 98] ∧ s.returned = [97] := by
  refine ⟨_, reachable_lossless (Relation.ReflTransGen.refl
    |>.tail (.headFirst (s := System.init fun _ => 0) .hasKey rfl)
    |>.tail (.irq 0x1E) |>.tail (.thenTail rfl)
    |>.tail (.tailFirst .getchar rfl) |>.tail (.thenHead rfl) |>.tail (.readIndex rfl)
    |>.tail (.irq 0x30) |>.tail (.readCell rfl) |>.tail (.readTail rfl)
    |>.tail (.writeTail rfl)), ?_, ?_⟩
  · decide +kernel
  · decide +kernel

end Drivers
end AuraKernel
