import AuraKernel.Machine.Marks

namespace AuraKernel
namespace Machine

/-!
# Descriptor tables

A 64-bit processor finds the code for an interrupt through two tables in memory:
a gate for each vector, and the segment that the gate names.  The module says how
the processor reads the two kinds of entries, what it checks before it goes to the
address of a gate, and what it notes in a segment that it loads: the accessed bit of
code and data, the busy bit of a task state segment.  The system calls and the local
table of segments are left out, and so is the change to another privilege level.
-/

/-- What `lgdt` and `lidt` load. -/
structure TableRegister where
  limit : Nat
  base : Nat
deriving DecidableEq, Repr

/-- `width` bits of a word, from bit `start` on -/
def bitField (word start width : Nat) : Nat := word / 2 ^ start % 2 ^ width

/-- An entry of the interrupt table. -/
structure Gate where
  offset : Nat
  selector : Nat
  stackIndex : Nat
  kind : Nat
  privilege : Nat
  present : Nat
deriving DecidableEq, Repr

/-- The entry of 16 bytes at an address. -/
def readGate (mem : Mem) (addr : Nat) : Gate :=
  let low := mem.load64 addr
  let high := mem.load64 (addr + 8)
  { offset := bitField low 0 16 + 2 ^ 16 * bitField low 48 16 + 2 ^ 32 * bitField high 0 32
    selector := bitField low 16 16
    stackIndex := bitField low 32 3
    kind := bitField low 40 5
    privilege := bitField low 45 2
    present := bitField low 47 1 }

/-- An entry of the segment table. -/
structure Segment where
  base : Nat
  limit : Nat
  kind : Nat
  notSystem : Nat
  privilege : Nat
  present : Nat
  available : Nat
  long : Nat
  big : Nat
  granular : Nat
deriving DecidableEq, Repr

/-- The entry of 8 bytes at an address. -/
def readSegment (mem : Mem) (addr : Nat) : Segment :=
  let word := mem.load64 addr
  { base := bitField word 16 24 + 2 ^ 24 * bitField word 56 8
    limit := bitField word 0 16 + 2 ^ 16 * bitField word 48 4
    kind := bitField word 40 4
    notSystem := bitField word 44 1
    privilege := bitField word 45 2
    present := bitField word 47 1
    available := bitField word 52 1
    long := bitField word 53 1
    big := bitField word 54 1
    granular := bitField word 55 1 }

/-- The base of a system segment, whose entry has 16 bytes. -/
def readSystemBase (mem : Mem) (addr : Nat) : Nat :=
  (readSegment mem addr).base + 2 ^ 32 * bitField (mem.load64 (addr + 8)) 0 32

/-! ## Checks -/

/-- The exceptions that the checks raise. -/
inductive Exc
  | generalProtection
  | notPresent
  | stackFault
deriving DecidableEq, Repr

structure Target where
  rip : Nat
  cs : Nat
  masked : Bool -- interrupts are disabled there
  stackIndex : Nat
deriving DecidableEq, Repr

/-- Where the entry of a selector is. -/
def TableRegister.entry (gdtr : TableRegister) (selector : Nat) : Nat :=
  gdtr.base + selector / 8 * 8

/-- The entry that a selector names, if it is within the table; selector 0 names none. -/
def lookupSegment (gdtr : TableRegister) (mem : Mem) (selector : Nat) : Except Exc Segment :=
  if selector / 4 = 0 then .error .generalProtection
  else if selector / 4 % 2 = 1 then .error .generalProtection -- a local table
  else if selector / 8 * 8 + 7 > gdtr.limit then .error .generalProtection
  else .ok (readSegment mem (gdtr.entry selector))

/-- Bits are set in the kind of an entry: bit 0 is the accessed bit of code and data, and bit 1
the busy bit of a task state segment. -/
def noteSegment (addr : Nat) (bits : UInt8) (mem : Mem) : Mem := mem.setBits (addr + 5) bits

/-- The same in what the processor keeps of the entry. -/
def Segment.note (segment : Segment) (bits : UInt8) : Segment :=
  { segment with kind := segment.kind ||| bits.toNat }

/-- `CS` is loaded at privilege level 0: the segment, and the memory with the accessed bit. -/
def loadCode (gdtr : TableRegister) (mem : Mem) (selector : Nat) : Except Exc (Segment × Mem) := do
  let segment ← lookupSegment gdtr mem selector
  if segment.notSystem = 0 ∨ segment.kind / 8 = 0 ∨ segment.privilege ≠ 0 then
    .error .generalProtection
  else if segment.present = 0 then .error .notPresent
  else if segment.long = 0 ∨ segment.big = 1 then .error .generalProtection
  else .ok (segment.note 1, noteSegment (gdtr.entry selector) 1 mem)

/-- `SS`, and any other data segment, is loaded at privilege level 0: the segment, and the memory
with the accessed bit. -/
def loadStack (gdtr : TableRegister) (mem : Mem) (selector : Nat) :
    Except Exc (Segment × Mem) := do
  let segment ← lookupSegment gdtr mem selector
  if segment.notSystem = 0 ∨ segment.kind / 8 = 1 ∨ segment.kind / 2 % 2 = 0 ∨
      segment.privilege ≠ 0 then
    .error .generalProtection
  else if segment.present = 0 then .error .stackFault
  else .ok (segment.note 1, noteSegment (gdtr.entry selector) 1 mem)

structure Task where
  segment : Segment
  base : Nat
deriving DecidableEq, Repr

/-- `ltr`: the task state segment, which must be available, and the memory with the busy bit. -/
def loadTask (gdtr : TableRegister) (mem : Mem) (selector : Nat) : Except Exc (Task × Mem) := do
  let segment ← lookupSegment gdtr mem selector
  if selector / 8 * 8 + 15 > gdtr.limit then .error .generalProtection
  else if segment.notSystem = 1 ∨ segment.kind ≠ 9 then .error .generalProtection
  else if segment.present = 0 then .error .notPresent
  else
    .ok (⟨segment.note 2, readSystemBase mem (gdtr.entry selector)⟩,
      noteSegment (gdtr.entry selector) 2 mem)

/-- An interrupt at privilege level 0: where it goes, and the memory after `CS` is loaded.  The
frame on the stack is left to the model of the stubs. -/
def enterVector (idtr gdtr : TableRegister) (mem : Mem) (vector : Nat) :
    Except Exc (Target × Mem) := do
  if 16 * vector + 15 > idtr.limit then .error .generalProtection
  else
    let gate := readGate mem (idtr.base + 16 * vector)
    if gate.kind ≠ 14 ∧ gate.kind ≠ 15 then .error .generalProtection
    else if gate.present = 0 then .error .notPresent
    else
      let (_, mem) ← loadCode gdtr mem gate.selector
      .ok
        ({ rip := gate.offset
           cs := gate.selector
           masked := gate.kind = 14
           stackIndex := gate.stackIndex }, mem)

/-! ## Packed words -/

section Packed

variable {mem mem' : Mem} {addr : Nat}

/-- A word as its parts of 16, 16, 8, 8 and 16 bits. -/
theorem load64_gate (mem : Mem) (addr : Nat) :
    mem.load64 addr = mem.load addr 2 + 2 ^ 16 * mem.load (addr + 2) 2 +
      2 ^ 32 * mem.load (addr + 4) 1 + 2 ^ 40 * mem.load (addr + 5) 1 +
        2 ^ 48 * mem.load (addr + 6) 2 := by
  have first := mem.load_add addr 2 6
  have second := mem.load_add (addr + 2) 2 4
  have third := mem.load_add (addr + 4) 1 3
  have fourth := mem.load_add (addr + 5) 1 2
  change mem.load addr 8 = _
  simp only [Nat.add_assoc, Nat.reduceAdd, Nat.reducePow] at first second third fourth ⊢
  omega

/-- A word as its parts of 16, 16, 8, 8, 8 and 8 bits. -/
theorem load64_segment (mem : Mem) (addr : Nat) :
    mem.load64 addr = mem.load addr 2 + 2 ^ 16 * mem.load (addr + 2) 2 +
      2 ^ 32 * mem.load (addr + 4) 1 + 2 ^ 40 * mem.load (addr + 5) 1 +
        2 ^ 48 * mem.load (addr + 6) 1 + 2 ^ 56 * mem.load (addr + 7) 1 := by
  have gate := load64_gate mem addr
  have last := mem.load_add (addr + 6) 1 1
  simp only [Nat.add_assoc, Nat.reduceAdd, Nat.reducePow] at gate last ⊢
  omega

theorem readGate_eq (mem : Mem) (addr : Nat) :
    readGate mem addr =
      { offset := mem.load addr 2 + 2 ^ 16 * mem.load (addr + 6) 2 + 2 ^ 32 * mem.load (addr + 8) 4
        selector := mem.load (addr + 2) 2
        stackIndex := mem.load (addr + 4) 1 % 2 ^ 3
        kind := mem.load (addr + 5) 1 % 2 ^ 5
        privilege := mem.load (addr + 5) 1 / 2 ^ 5 % 2 ^ 2
        present := mem.load (addr + 5) 1 / 2 ^ 7 % 2 } := by
  have first := mem.load_lt addr 2
  have second := mem.load_lt (addr + 2) 2
  have third := mem.load_lt (addr + 4) 1
  have fourth := mem.load_lt (addr + 5) 1
  have fifth := mem.load_lt (addr + 6) 2
  have sixth := mem.load_lt (addr + 8) 4
  unfold readGate bitField
  rw [load64_gate mem addr, Mem.load64_eq_load32 mem (addr + 8)]
  unfold Mem.load32
  generalize mem.load addr 2 = part1 at first ⊢
  generalize mem.load (addr + 2) 2 = part2 at second ⊢
  generalize mem.load (addr + 4) 1 = part3 at third ⊢
  generalize mem.load (addr + 5) 1 = part4 at fourth ⊢
  generalize mem.load (addr + 6) 2 = part5 at fifth ⊢
  generalize mem.load (addr + 8) 4 = part6 at sixth ⊢
  simp only [Gate.mk.injEq, Nat.reducePow, Nat.div_one] at *
  refine ⟨?_, ?_, ?_, ?_, ?_, ?_⟩
  all_goals omega

theorem readSegment_eq (mem : Mem) (addr : Nat) :
    readSegment mem addr =
      { base := mem.load (addr + 2) 2 + 2 ^ 16 * mem.load (addr + 4) 1 +
          2 ^ 24 * mem.load (addr + 7) 1
        limit := mem.load addr 2 + 2 ^ 16 * (mem.load (addr + 6) 1 % 2 ^ 4)
        kind := mem.load (addr + 5) 1 % 2 ^ 4
        notSystem := mem.load (addr + 5) 1 / 2 ^ 4 % 2
        privilege := mem.load (addr + 5) 1 / 2 ^ 5 % 2 ^ 2
        present := mem.load (addr + 5) 1 / 2 ^ 7 % 2
        available := mem.load (addr + 6) 1 / 2 ^ 4 % 2
        long := mem.load (addr + 6) 1 / 2 ^ 5 % 2
        big := mem.load (addr + 6) 1 / 2 ^ 6 % 2
        granular := mem.load (addr + 6) 1 / 2 ^ 7 % 2 } := by
  have first := mem.load_lt addr 2
  have second := mem.load_lt (addr + 2) 2
  have third := mem.load_lt (addr + 4) 1
  have fourth := mem.load_lt (addr + 5) 1
  have fifth := mem.load_lt (addr + 6) 1
  have sixth := mem.load_lt (addr + 7) 1
  unfold readSegment bitField
  rw [load64_segment mem addr]
  generalize mem.load addr 2 = part1 at first ⊢
  generalize mem.load (addr + 2) 2 = part2 at second ⊢
  generalize mem.load (addr + 4) 1 = part3 at third ⊢
  generalize mem.load (addr + 5) 1 = part4 at fourth ⊢
  generalize mem.load (addr + 6) 1 = part5 at fifth ⊢
  generalize mem.load (addr + 7) 1 = part6 at sixth ⊢
  simp only [Segment.mk.injEq, Nat.reducePow] at *
  refine ⟨?_, ?_, ?_, ?_, ?_, ?_, ?_, ?_, ?_, ?_⟩
  all_goals omega

theorem readSystemBase_eq (mem : Mem) (addr : Nat) :
    readSystemBase mem addr = mem.load (addr + 2) 2 + 2 ^ 16 * mem.load (addr + 4) 1 +
      2 ^ 24 * mem.load (addr + 7) 1 + 2 ^ 32 * mem.load (addr + 8) 4 := by
  have upper := mem.load_lt (addr + 8) 4
  have field : bitField (mem.load64 (addr + 8)) 0 32 = mem.load (addr + 8) 4 := by
    unfold bitField
    rw [Mem.load64_eq_load32]
    unfold Mem.load32
    omega
  unfold readSystemBase
  rw [field, readSegment_eq]

theorem readGate_congr (same : ∀ place, addr ≤ place → place < addr + 16 → mem' place = mem place) :
    readGate mem' addr = readGate mem addr := by
  have low : mem'.load64 addr = mem.load64 addr :=
    Mem.load64_congr fun place from_ below => same place from_ (by omega)
  have high : mem'.load64 (addr + 8) = mem.load64 (addr + 8) :=
    Mem.load64_congr fun place from_ below => same place (by omega) (by omega)
  unfold readGate
  rw [low, high]

theorem readSegment_congr
    (same : ∀ place, addr ≤ place → place < addr + 8 → mem' place = mem place) :
    readSegment mem' addr = readSegment mem addr := by
  unfold readSegment
  rw [Mem.load64_congr same]

theorem readSystemBase_congr
    (same : ∀ place, addr ≤ place → place < addr + 16 → mem' place = mem place) :
    readSystemBase mem' addr = readSystemBase mem addr := by
  have upper : mem'.load64 (addr + 8) = mem.load64 (addr + 8) :=
    Mem.load64_congr fun place low high => same place (by omega) (by omega)
  unfold readSystemBase
  rw [readSegment_congr fun place low high => same place low (by omega), upper]

/-- A note is seen in the kind of the segment, and nowhere else. -/
theorem readSegment_note {bits : UInt8} (small : bits.toNat < 2 ^ 4) :
    readSegment (noteSegment addr bits mem) addr = (readSegment mem addr).note bits := by
  have kind : (mem.load (addr + 5) 1 ||| bits.toNat) % 2 ^ 4 =
      mem.load (addr + 5) 1 % 2 ^ 4 ||| bits.toNat := by
    rw [Nat.or_mod_two_pow, Nat.mod_eq_of_lt small]
  have upper : (mem.load (addr + 5) 1 ||| bits.toNat) / 2 ^ 4 = mem.load (addr + 5) 1 / 2 ^ 4 := by
    rw [Nat.or_div_two_pow, Nat.div_eq_of_lt small, Nat.or_zero]
  have fifth : (mem.load (addr + 5) 1 ||| bits.toNat) / 2 ^ 5 = mem.load (addr + 5) 1 / 2 ^ 5 := by
    omega
  have seventh : (mem.load (addr + 5) 1 ||| bits.toNat) / 2 ^ 7 =
      mem.load (addr + 5) 1 / 2 ^ 7 := by
    omega
  rw [readSegment_eq, readSegment_eq]
  unfold noteSegment Segment.note
  rw [Mem.load_setBits_self, kind, upper, fifth, seventh]
  simp (disch := omega) only [Mem.load_setBits_of_outside]

theorem readSystemBase_note {bits : UInt8} :
    readSystemBase (noteSegment addr bits mem) addr = readSystemBase mem addr := by
  rw [readSystemBase_eq, readSystemBase_eq]
  unfold noteSegment
  simp (disch := omega) only [Mem.load_setBits_of_outside]

theorem readSegment_note_of_ne {other : Nat} {bits : UInt8}
    (apart : other + 8 ≤ addr ∨ addr + 8 ≤ other) :
    readSegment (noteSegment addr bits mem) other = readSegment mem other :=
  readSegment_congr fun place low high => Mem.setBits_of_ne (by omega)

/-- The word of a segment that is loaded for the first time. -/
theorem load64_note {word : Nat} (left : mem.load64 addr = word) (clear : word / 2 ^ 40 % 2 = 0) :
    (noteSegment addr 1 mem).load64 addr = word + 2 ^ 40 := by
  have even : mem.load (addr + 5) 1 % 2 ^ 1 = 0 := by
    have low := mem.load_lt addr 2
    have mid := mem.load_lt (addr + 2) 2
    have high := mem.load_lt (addr + 4) 1
    have parts := load64_segment mem addr
    omega
  have kind : (noteSegment addr 1 mem).load (addr + 5) 1 = mem.load (addr + 5) 1 + 1 :=
    Mem.load_setBits_self.trans (or_of_aligned even (by decide))
  have parts := load64_segment mem addr
  rw [load64_segment, kind]
  unfold noteSegment
  simp (disch := omega) only [Mem.load_setBits_of_outside]
  omega

/-- A segment that was loaded before is not written again. -/
theorem noteSegment_again (accessed : (readSegment mem addr).kind % 2 = 1) :
    noteSegment addr 1 mem = mem := by
  have odd : (mem (addr + 5)).toNat % 2 = 1 := by
    have kind := accessed
    rw [readSegment_eq] at kind
    simp only [Mem.load, Nat.mul_zero, Nat.add_zero] at kind
    omega
  apply Mem.setBits_of_set
  apply UInt8.toNat_inj.mp
  rw [UInt8.toNat_or]
  apply Nat.eq_of_testBit_eq
  intro index
  rw [Nat.testBit_or]
  cases index with
  | zero =>
      rw [Nat.testBit_zero, odd]
      rfl
  | succ index => simp [Nat.testBit_succ]

end Packed

/-! ## Entering a vector -/

section Entering

variable {idtr gdtr : TableRegister} {mem : Mem} {vector : Nat}

/-- An interrupt gate whose selector names kernel code is entered with interrupts disabled. -/
theorem enterVector_interrupt {entry : Gate} {segment : Segment} {mem' : Mem}
    (inside : 16 * vector + 15 ≤ idtr.limit)
    (found : readGate mem (idtr.base + 16 * vector) = entry) (kind : entry.kind = 14)
    (present : entry.present ≠ 0) (code : loadCode gdtr mem entry.selector = .ok (segment, mem')) :
    enterVector idtr gdtr mem vector =
      .ok (⟨entry.offset, entry.selector, true, entry.stackIndex⟩, mem') := by
  subst found
  have reached : ¬ 16 * vector + 15 > idtr.limit := Nat.not_lt.mpr inside
  simp only [enterVector, if_neg reached, if_neg present, code, kind, decide_true]
  rfl

theorem enterVector_beyond (beyond : idtr.limit < 16 * vector + 15) :
    enterVector idtr gdtr mem vector = .error .generalProtection := by
  simp only [enterVector, gt_iff_lt, if_pos beyond]

/-- An entry of another kind is not entered. -/
theorem enterVector_noGate (interrupt : (readGate mem (idtr.base + 16 * vector)).kind ≠ 14)
    (trap : (readGate mem (idtr.base + 16 * vector)).kind ≠ 15) :
    enterVector idtr gdtr mem vector = .error .generalProtection := by
  by_cases beyond : idtr.limit < 16 * vector + 15
  · exact enterVector_beyond beyond
  · simp only [enterVector, gt_iff_lt, if_neg beyond]
    exact if_pos ⟨interrupt, trap⟩

end Entering

end Machine
end AuraKernel
