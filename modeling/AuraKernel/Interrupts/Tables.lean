import AuraKernel.Interrupts.Isr
import AuraKernel.Interrupts.Pic
import AuraKernel.Machine.Descriptors

namespace AuraKernel
namespace Interrupts

open Machine

/-!
# The descriptor tables

`gdt_init` in `kernel/arch/x86_shared/gdt.c` builds the table of segments and the
task state segment and loads them, and `isr_install` in `idt.c` builds the table of
gates.  Both write packed structures field by field; the processor reads them as
descriptors, and notes in those of the first table that they are loaded.
-/

/-! ## gdt.c -/

/-- `gdt_set_gate`, for the table at `gdt`: the stores are to `base_low`, `base_middle`,
`base_high`, `limit_low`, twice to `granularity`, and to `access`. -/
def gdtSetGate (gdt num base limit access gran : Nat) (mem : Mem) : Mem :=
  let entry := gdt + 8 * num
  let mem := mem.store (entry + 2) 2 (base &&& 0xFFFF)
  let mem := mem.store (entry + 4) 1 (base >>> 16 &&& 0xFF)
  let mem := mem.store (entry + 7) 1 (base >>> 24 &&& 0xFF)
  let mem := mem.store entry 2 (limit &&& 0xFFFF)
  let mem := mem.store (entry + 6) 1 (limit >>> 16 &&& 0x0F)
  let mem := mem.store (entry + 6) 1 (mem.load (entry + 6) 1 ||| (gran &&& 0xF0))
  mem.store (entry + 5) 1 access

/-- `write_tss`: the stores are to `length`, `base_low`, `base_mid`, `flags1`, `flags2`,
`base_high`, `base_upper32` and `reserved`. -/
def writeTss (g base limit : Nat) (mem : Mem) : Mem :=
  let mem := mem.store g 2 (limit &&& 0xFFFF)
  let mem := mem.store (g + 2) 2 (base &&& 0xFFFF)
  let mem := mem.store (g + 4) 1 (base >>> 16 &&& 0xFF)
  let mem := mem.store (g + 5) 1 0x89
  let mem := mem.store (g + 6) 1 (limit >>> 16 &&& 0x0F)
  let mem := mem.store (g + 7) 1 (base >>> 24 &&& 0xFF)
  let mem := mem.store (g + 8) 4 (base >>> 32)
  mem.store (g + 12) 4 0

def gdtKernelCode : Nat := 0x08
def gdtKernelData : Nat := 0x10
def gdtUserCode : Nat := 0x18
def gdtUserData : Nat := 0x20
def gdtTss : Nat := 0x28

def gdtSize : Nat := 56

def tssSize : Nat := 104

/-- `gdt_init` up to `lgdt`, with the variables `gdt` and `tss` at these addresses -/
def gdtEntries (gdt tss : Nat) (mem : Mem) : Mem :=
  let mem := gdtSetGate gdt 0 0 0 0 0 mem
  let mem := gdtSetGate gdt 1 0 0xFFFFFFFF 0x9A 0x20 mem
  let mem := gdtSetGate gdt 2 0 0xFFFFFFFF 0x92 0x00 mem
  let mem := gdtSetGate gdt 3 0 0xFFFFFFFF 0xFA 0x20 mem
  let mem := gdtSetGate gdt 4 0 0xFFFFFFFF 0xF2 0x00 mem
  let mem := mem.fill tss 0 tssSize
  let mem := mem.store (tss + 102) 2 tssSize -- iomap_base
  writeTss (gdt + 40) tss (tssSize - 1) mem

/-- What `gdt_init` leaves in memory and in the processor. -/
structure Segments where
  mem : Mem
  gdtr : TableRegister
  ds : Segment
  es : Segment
  ss : Segment
  fs : Segment
  gs : Segment
  cs : Segment
  tr : Task

/-- `gdt_init`, with the variables `gdt` and `tss` at these addresses.  The stack from which
`lretq` takes the selector of `CS` is left out. -/
def gdtInit (gdt tss : Nat) (mem : Mem) : Except Exc Segments := do
  let mem := gdtEntries gdt tss mem
  let gdtr : TableRegister := { limit := gdtSize - 1, base := gdt }
  let (ds, mem) ← loadStack gdtr mem gdtKernelData
  let (es, mem) ← loadStack gdtr mem gdtKernelData
  let (ss, mem) ← loadStack gdtr mem gdtKernelData
  let (fs, mem) ← loadStack gdtr mem gdtKernelData
  let (gs, mem) ← loadStack gdtr mem gdtKernelData
  let (cs, mem) ← loadCode gdtr mem gdtKernelCode
  let (tr, mem) ← loadTask gdtr mem gdtTss
  .ok ⟨mem, gdtr, ds, es, ss, fs, gs, cs, tr⟩

/-! ## idt.c -/

/-- `idt_set_gate`, for the table at `idt`: the stores are to `base_low`, `selector`, `ist`,
`flags`, `base_mid`, `base_high` and `reserved`. -/
def idtSetGate (idt num handler selector flags : Nat) (mem : Mem) : Mem :=
  let entry := idt + 16 * num
  let mem := mem.store entry 2 (handler &&& 0xFFFF)
  let mem := mem.store (entry + 2) 2 selector
  let mem := mem.store (entry + 4) 1 0
  let mem := mem.store (entry + 5) 1 flags
  let mem := mem.store (entry + 6) 2 (handler >>> 16 &&& 0xFFFF)
  let mem := mem.store (entry + 8) 4 (handler >>> 32 &&& 0xFFFFFFFF)
  mem.store (entry + 12) 4 0

def idtSize : Nat := 4096

/-- The gates for the first `count` stubs, in the order of their vectors -/
def setGates (idt : Nat) (stub : Stub → BitVec 64) (mem : Mem) : Nat → Mem
  | 0 => mem
  | count + 1 =>
      idtSetGate idt count (stub (gate count)).toNat gdtKernelCode 0x8E
        (setGates idt stub mem count)

structure Installation where
  mem : Mem
  idtr : TableRegister
  handlers : Handlers
  pics : Pics

/-- `isr_install`, with the variable `idt` at this address and the stubs of `isr.S` at theirs -/
def isrInstall (idt : Nat) (stub : Stub → BitVec 64) (mem : Mem) (pics : Pics) : Installation where
  mem := setGates idt stub (mem.fill idt 0 idtSize) 48
  idtr := { limit := idtSize - 1, base := idt }
  handlers := fun _ => none
  pics := picRemap 0x20 0x28 pics

/-! ## One entry -/

section Entries

variable {mem : Mem} {gdt idt num : Nat}

theorem and_mask (value n : Nat) : value &&& (2 ^ n - 1) = value % 2 ^ n :=
  Nat.and_two_pow_sub_one_eq_mod value n

theorem idtSetGate_outside {handler selector flags place : Nat}
    (outside : place < idt + 16 * num ∨ idt + 16 * num + 16 ≤ place) :
    idtSetGate idt num handler selector flags mem place = mem place := by
  unfold idtSetGate
  simp (disch := omega) only [Mem.store_apply_of_outside]

theorem gdtSetGate_outside {base limit access gran place : Nat}
    (outside : place < gdt + 8 * num ∨ gdt + 8 * num + 8 ≤ place) :
    gdtSetGate gdt num base limit access gran mem place = mem place := by
  unfold gdtSetGate
  simp (disch := omega) only [Mem.store_apply_of_outside]

theorem idtSetGate_fields (handler selector flags : Nat) :
    let mem' := idtSetGate idt num handler selector flags mem
    let entry := idt + 16 * num
    mem'.load entry 2 = handler % 2 ^ 16 ∧ mem'.load (entry + 2) 2 = selector % 2 ^ 16 ∧
      mem'.load (entry + 4) 1 = 0 ∧ mem'.load (entry + 5) 1 = flags % 2 ^ 8 ∧
      mem'.load (entry + 6) 2 = handler / 2 ^ 16 % 2 ^ 16 ∧
      mem'.load (entry + 8) 4 = handler / 2 ^ 32 % 2 ^ 32 := by
  intro mem' entry
  have low : handler &&& 0xFFFF = handler % 2 ^ 16 := and_mask handler 16
  have mid : handler >>> 16 &&& 0xFFFF = handler / 2 ^ 16 % 2 ^ 16 := by
    rw [Nat.shiftRight_eq_div_pow]
    exact and_mask _ 16
  have high : handler >>> 32 &&& 0xFFFFFFFF = handler / 2 ^ 32 % 2 ^ 32 := by
    rw [Nat.shiftRight_eq_div_pow]
    exact and_mask _ 32
  simp only [mem', idtSetGate]
  rw [low, mid, high]
  refine ⟨?_, ?_, ?_, ?_, ?_, ?_⟩
  all_goals
    simp (disch := omega) only [entry, Mem.load_store_disjoint, Mem.load_store_same]
    omega

/-- The processor reads back what `idt_set_gate` was given. -/
theorem readGate_idtSetGate (handler selector flags : Nat) :
    readGate (idtSetGate idt num handler selector flags mem) (idt + 16 * num) =
      { offset := handler % 2 ^ 64
        selector := selector % 2 ^ 16
        stackIndex := 0
        kind := flags % 2 ^ 5
        privilege := flags / 2 ^ 5 % 2 ^ 2
        present := flags / 2 ^ 7 % 2 } := by
  rcases @idtSetGate_fields mem idt num handler selector flags with
    ⟨baseLow, selectorEq, ist, flagsEq, baseMid, baseHigh⟩
  rw [readGate_eq, baseLow, selectorEq, ist, flagsEq, baseMid, baseHigh, Gate.mk.injEq]
  clear baseLow selectorEq ist flagsEq baseMid baseHigh
  refine ⟨?_, rfl, rfl, ?_, ?_, ?_⟩
  all_goals omega

theorem gdtSetGate_fields (base limit access gran : Nat) :
    let mem' := gdtSetGate gdt num base limit access gran mem
    let entry := gdt + 8 * num
    mem'.load entry 2 = limit % 2 ^ 16 ∧ mem'.load (entry + 2) 2 = base % 2 ^ 16 ∧
      mem'.load (entry + 4) 1 = base / 2 ^ 16 % 2 ^ 8 ∧ mem'.load (entry + 5) 1 = access % 2 ^ 8 ∧
      mem'.load (entry + 6) 1 = limit / 2 ^ 16 % 2 ^ 4 + gran / 2 ^ 4 % 2 ^ 4 * 2 ^ 4 ∧
      mem'.load (entry + 7) 1 = base / 2 ^ 24 % 2 ^ 8 := by
  intro mem' entry
  have baseLow : base &&& 0xFFFF = base % 2 ^ 16 := and_mask base 16
  have baseMiddle : base >>> 16 &&& 0xFF = base / 2 ^ 16 % 2 ^ 8 := by
    rw [Nat.shiftRight_eq_div_pow]
    exact and_mask _ 8
  have baseHigh : base >>> 24 &&& 0xFF = base / 2 ^ 24 % 2 ^ 8 := by
    rw [Nat.shiftRight_eq_div_pow]
    exact and_mask _ 8
  have limitLow : limit &&& 0xFFFF = limit % 2 ^ 16 := and_mask limit 16
  have limitHigh : limit >>> 16 &&& 0x0F = limit / 2 ^ 16 % 2 ^ 4 := by
    rw [Nat.shiftRight_eq_div_pow]
    exact and_mask _ 4
  have flags : gran &&& 0xF0 = gran % 2 ^ 8 / 2 ^ 4 * 2 ^ 4 :=
    @and_highMask 4 8 (by decide) gran
  have both : limit / 2 ^ 16 % 2 ^ 4 % 256 ^ 1 ||| gran % 2 ^ 8 / 2 ^ 4 * 2 ^ 4 =
      gran % 2 ^ 8 / 2 ^ 4 * 2 ^ 4 + limit / 2 ^ 16 % 2 ^ 4 := by
    rw [Nat.or_comm, Nat.mod_eq_of_lt (a := limit / 2 ^ 16 % 2 ^ 4) (by omega)]
    exact @or_of_aligned 4 _ _ (by omega) (by omega)
  simp only [mem', gdtSetGate]
  rw [baseLow, baseMiddle, baseHigh, limitLow, limitHigh, flags]
  refine ⟨?_, ?_, ?_, ?_, ?_, ?_⟩
  all_goals
    simp (disch := omega) only [entry, Mem.load_store_disjoint, Mem.load_store_same, both]
    omega

/-- The processor reads back what `gdt_set_gate` was given. -/
theorem readSegment_gdtSetGate (base limit access gran : Nat) :
    readSegment (gdtSetGate gdt num base limit access gran mem) (gdt + 8 * num) =
      { base := base % 2 ^ 32
        limit := limit % 2 ^ 20
        kind := access % 2 ^ 4
        notSystem := access / 2 ^ 4 % 2
        privilege := access / 2 ^ 5 % 2 ^ 2
        present := access / 2 ^ 7 % 2
        available := gran / 2 ^ 4 % 2
        long := gran / 2 ^ 5 % 2
        big := gran / 2 ^ 6 % 2
        granular := gran / 2 ^ 7 % 2 } := by
  rcases @gdtSetGate_fields mem gdt num base limit access gran with
    ⟨limitLow, baseLow, baseMiddle, accessEq, granularity, baseHigh⟩
  rw [readSegment_eq, limitLow, baseLow, baseMiddle, accessEq, granularity, baseHigh,
    Segment.mk.injEq]
  clear limitLow baseLow baseMiddle accessEq granularity baseHigh
  refine ⟨?_, ?_, ?_, ?_, ?_, ?_, ?_, ?_, ?_, ?_⟩
  all_goals omega

end Entries

/-! ## The table of gates -/

section Gates

variable {mem : Mem} {idt : Nat} {stub : Stub → BitVec 64}

theorem setGates_outside {count place : Nat}
    (outside : place < idt ∨ idt + 16 * count ≤ place) :
    setGates idt stub mem count place = mem place := by
  induction count with
  | zero => rfl
  | succ count inductionHypothesis =>
      rw [setGates, idtSetGate_outside (by omega), inductionHypothesis (by omega)]

/-- The gate of a vector leads to its stub, with interrupts disabled. -/
theorem readGate_setGates {vector count : Nat} (set : vector < count) :
    readGate (setGates idt stub mem count) (idt + 16 * vector) =
      { offset := (stub (gate vector)).toNat
        selector := gdtKernelCode
        stackIndex := 0
        kind := 14
        privilege := 0
        present := 1 } := by
  induction count with
  | zero => exact absurd set (Nat.not_lt_zero vector)
  | succ count inductionHypothesis =>
      rw [setGates]
      by_cases last : vector = count
      · subst last
        rw [readGate_idtSetGate, Nat.mod_eq_of_lt (stub (gate vector)).isLt]
        rfl
      · rw [readGate_congr fun place low high => idtSetGate_outside (by omega)]
        exact inductionHypothesis (by omega)

/-- A vector without a stub has an entry that is no gate. -/
theorem readGate_unset {vector : Nat} (unset : 48 ≤ vector) (inside : vector < 256) :
    (readGate (setGates idt stub (mem.fill idt 0 idtSize) 48) (idt + 16 * vector)).kind = 0 := by
  have zero :
      (setGates idt stub (mem.fill idt 0 idtSize) 48).load (idt + 16 * vector + 5) 1 = 0 := by
    apply Mem.load_of_zero
    intro place low high
    rw [setGates_outside (by omega), Mem.fill_apply, if_pos]
    unfold idtSize
    omega
  rw [readGate_eq, zero]
  rfl

end Gates

/-! ## The table of segments -/

section Segments

variable {mem : Mem} {gdt tss : Nat}

theorem writeTss_fields (g base limit : Nat) :
    let mem' := writeTss g base limit mem
    mem'.load g 2 = limit % 2 ^ 16 ∧ mem'.load (g + 2) 2 = base % 2 ^ 16 ∧
      mem'.load (g + 4) 1 = base / 2 ^ 16 % 2 ^ 8 ∧ mem'.load (g + 5) 1 = 0x89 ∧
      mem'.load (g + 6) 1 = limit / 2 ^ 16 % 2 ^ 4 ∧
      mem'.load (g + 7) 1 = base / 2 ^ 24 % 2 ^ 8 ∧
      mem'.load (g + 8) 4 = base / 2 ^ 32 % 2 ^ 32 := by
  intro mem'
  have baseLow : base &&& 0xFFFF = base % 2 ^ 16 := and_mask base 16
  have baseMid : base >>> 16 &&& 0xFF = base / 2 ^ 16 % 2 ^ 8 := by
    rw [Nat.shiftRight_eq_div_pow]
    exact and_mask _ 8
  have baseHigh : base >>> 24 &&& 0xFF = base / 2 ^ 24 % 2 ^ 8 := by
    rw [Nat.shiftRight_eq_div_pow]
    exact and_mask _ 8
  have limitLow : limit &&& 0xFFFF = limit % 2 ^ 16 := and_mask limit 16
  have limitHigh : limit >>> 16 &&& 0x0F = limit / 2 ^ 16 % 2 ^ 4 := by
    rw [Nat.shiftRight_eq_div_pow]
    exact and_mask _ 4
  simp only [mem', writeTss]
  rw [baseLow, baseMid, baseHigh, limitLow, limitHigh, Nat.shiftRight_eq_div_pow]
  refine ⟨?_, ?_, ?_, ?_, ?_, ?_, ?_⟩
  all_goals
    simp (disch := omega) only [Mem.load_store_disjoint, Mem.load_store_same]
    omega

theorem writeTss_outside {g base limit place : Nat} (outside : place < g ∨ g + 16 ≤ place) :
    writeTss g base limit mem place = mem place := by
  unfold writeTss
  simp (disch := omega) only [Mem.store_apply_of_outside]

/-- The segments of the kernel and of user programs. -/
def flatSegment (kind privilege long : Nat) : Segment where
  base := 0
  limit := 0xFFFFF
  kind := kind
  notSystem := 1
  privilege := privilege
  present := 1
  available := 0
  long := long
  big := 0
  granular := 0

/-- The task state segment, available or busy. -/
def taskSegment (tss kind : Nat) : Segment where
  base := tss % 2 ^ 32
  limit := tssSize - 1
  kind := kind
  notSystem := 0
  privilege := 0
  present := 1
  available := 0
  long := 0
  big := 0
  granular := 0

/-- The table of `gdt_init` as the processor reads it, with the notes of what is loaded. -/
structure SegmentTable (mem : Mem) (gdt tss code data busy : Nat) : Prop where
  kernelCode : readSegment mem (gdt + 8 * 1) = flatSegment (10 ||| code) 0 1
  kernelData : readSegment mem (gdt + 8 * 2) = flatSegment (2 ||| data) 0 0
  userCode : readSegment mem (gdt + 8 * 3) = flatSegment 10 3 1
  userData : readSegment mem (gdt + 8 * 4) = flatSegment 2 3 0
  task : readSegment mem (gdt + 8 * 5) = taskSegment tss (9 ||| busy)
  taskBase : readSystemBase mem (gdt + 8 * 5) = tss % 2 ^ 64

theorem gdtEntries_segments (apart : gdt + gdtSize ≤ tss ∨ tss + tssSize ≤ gdt) :
    SegmentTable (gdtEntries gdt tss mem) gdt tss 0 0 0 := by
  unfold gdtSize tssSize at apart
  have outside : ∀ (before : Mem) (place : Nat), gdt ≤ place → place < gdt + 40 →
      writeTss (gdt + 40) tss (tssSize - 1)
        ((before.fill tss 0 tssSize).store (tss + 102) 2 tssSize) place = before place := by
    intro before place low high
    rw [writeTss_outside (by omega), Mem.store_apply_of_outside (by omega), Mem.fill_apply,
      if_neg]
    unfold tssSize
    omega
  have kept : ∀ (before : Mem) (num : Nat), num < 5 →
      readSegment (writeTss (gdt + 40) tss (tssSize - 1)
        ((before.fill tss 0 tssSize).store (tss + 102) 2 tssSize)) (gdt + 8 * num) =
        readSegment before (gdt + 8 * num) := by
    intro before num inside
    exact readSegment_congr fun place low high => outside before place (by omega) (by omega)
  have later : ∀ (before : Mem) (num other base limit access gran : Nat), num ≠ other →
      readSegment (gdtSetGate gdt other base limit access gran before) (gdt + 8 * num) =
        readSegment before (gdt + 8 * num) := by
    intro before num other base limit access gran different
    exact readSegment_congr fun place low high => gdtSetGate_outside (by omega)
  unfold gdtEntries
  constructor
  case kernelCode =>
    rw [kept _ 1 (by decide), later _ 1 4 _ _ _ _ (by decide), later _ 1 3 _ _ _ _ (by decide),
      later _ 1 2 _ _ _ _ (by decide), readSegment_gdtSetGate]
    rfl
  case kernelData =>
    rw [kept _ 2 (by decide), later _ 2 4 _ _ _ _ (by decide), later _ 2 3 _ _ _ _ (by decide),
      readSegment_gdtSetGate]
    rfl
  case userCode =>
    rw [kept _ 3 (by decide), later _ 3 4 _ _ _ _ (by decide), readSegment_gdtSetGate]
    rfl
  case userData =>
    rw [kept _ 4 (by decide), readSegment_gdtSetGate]
    rfl
  case task =>
    rcases @writeTss_fields _ (gdt + 40) tss (tssSize - 1) with
      ⟨length, baseLow, baseMid, flags1, flags2, baseHigh, _⟩
    dsimp only
    rw [readSegment_eq, length, baseLow, baseMid, flags1, flags2, baseHigh]
    unfold taskSegment
    rw [Segment.mk.injEq]
    refine ⟨?_, rfl, rfl, rfl, rfl, rfl, rfl, rfl, rfl, rfl⟩
    omega
  case taskBase =>
    rcases @writeTss_fields _ (gdt + 40) tss (tssSize - 1) with
      ⟨_, baseLow, baseMid, _, _, baseHigh, upper⟩
    dsimp only
    rw [readSystemBase_eq, baseLow, baseMid, baseHigh, upper]
    omega

end Segments

/-! ## Interrupts through the tables -/

/-- The variables lie apart from each other. -/
structure Placed (gdt tss idt : Nat) : Prop where
  gdt_tss : gdt + gdtSize ≤ tss ∨ tss + tssSize ≤ gdt
  gdt_idt : gdt + gdtSize ≤ idt ∨ idt + idtSize ≤ gdt
  tss_bound : tss < 2 ^ 64

/-- The memory behind the installation, as far as nobody has written to the two tables since. -/
structure KeepsTables (gdt idt : Nat) (installed mem : Mem) : Prop where
  segments : ∀ place, gdt ≤ place → place < gdt + gdtSize → mem place = installed place
  gates : ∀ place, idt ≤ place → place < idt + idtSize → mem place = installed place

/-- Every vector of the kernel leads to its stub in kernel mode with interrupts disabled and on
the current stack, and no other vector leads anywhere.  The kernel's segments can be loaded again
without a write to the table; the task state segment is busy and cannot. -/
structure Delivers (idtr gdtr : TableRegister) (mem : Mem) (stub : Stub → BitVec 64) (tss : Nat) :
    Prop where
  stubs : ∀ vector, vector < 48 → enterVector idtr gdtr mem vector =
    .ok (⟨(stub (gate vector)).toNat, gdtKernelCode, true, 0⟩, mem)
  others : ∀ vector, 48 ≤ vector → enterVector idtr gdtr mem vector = .error .generalProtection
  code : loadCode gdtr mem gdtKernelCode = .ok (flatSegment 11 0 1, mem)
  stack : loadStack gdtr mem gdtKernelData = .ok (flatSegment 3 0 0, mem)
  task : lookupSegment gdtr mem gdtTss = .ok (taskSegment tss 11)
  busy : loadTask gdtr mem gdtTss = .error .generalProtection
  null : loadStack gdtr mem 0 = .error .generalProtection
  user : lookupSegment gdtr mem gdtUserCode = .ok (flatSegment 10 3 1) ∧
    lookupSegment gdtr mem gdtUserData = .ok (flatSegment 2 3 0)

/-- What `gdt_init` has loaded: flat segments, and the task state segment at its address. -/
structure Loaded (gdt tss : Nat) (s : Segments) : Prop where
  gdtr : s.gdtr = ⟨gdtSize - 1, gdt⟩
  data : ∀ segment ∈ [s.ds, s.es, s.ss, s.fs, s.gs], segment = flatSegment 3 0 0
  code : s.cs = flatSegment 11 0 1
  task : s.tr = ⟨taskSegment tss 11, tss⟩

namespace SegmentTable

variable {mem mem' : Mem} {gdt tss code data busy : Nat}

theorem congr (table : SegmentTable mem gdt tss code data busy)
    (same : ∀ place, gdt ≤ place → place < gdt + gdtSize → mem' place = mem place) :
    SegmentTable mem' gdt tss code data busy := by
  unfold gdtSize at same
  have segment : ∀ num, num < 6 →
      readSegment mem' (gdt + 8 * num) = readSegment mem (gdt + 8 * num) := by
    intro num inside
    exact readSegment_congr fun place low high => same place (by omega) (by omega)
  constructor
  case kernelCode => exact (segment 1 (by decide)).trans table.kernelCode
  case kernelData => exact (segment 2 (by decide)).trans table.kernelData
  case userCode => exact (segment 3 (by decide)).trans table.userCode
  case userData => exact (segment 4 (by decide)).trans table.userData
  case task => exact (segment 5 (by decide)).trans table.task
  case taskBase =>
    rw [readSystemBase_congr fun place low high => same place (by omega) (by omega)]
    exact table.taskBase

theorem loadStack_eq (table : SegmentTable mem gdt tss code data busy)
    (kind : data = 0 ∨ data = 1) :
    loadStack ⟨gdtSize - 1, gdt⟩ mem gdtKernelData =
      .ok (flatSegment 3 0 0, noteSegment (gdt + 8 * 2) 1 mem) := by
  have found : lookupSegment ⟨gdtSize - 1, gdt⟩ mem gdtKernelData =
      .ok (flatSegment (2 ||| data) 0 0) := congrArg Except.ok table.kernelData
  unfold loadStack
  rw [found]
  rcases kind with rfl | rfl
  · rfl
  · rfl

theorem loadCode_eq (table : SegmentTable mem gdt tss code data busy)
    (kind : code = 0 ∨ code = 1) :
    loadCode ⟨gdtSize - 1, gdt⟩ mem gdtKernelCode =
      .ok (flatSegment 11 0 1, noteSegment (gdt + 8 * 1) 1 mem) := by
  have found : lookupSegment ⟨gdtSize - 1, gdt⟩ mem gdtKernelCode =
      .ok (flatSegment (10 ||| code) 0 1) := congrArg Except.ok table.kernelCode
  unfold loadCode
  rw [found]
  rcases kind with rfl | rfl
  · rfl
  · rfl

theorem loadTask_eq (table : SegmentTable mem gdt tss code data 0) (bound : tss < 2 ^ 64) :
    loadTask ⟨gdtSize - 1, gdt⟩ mem gdtTss =
      .ok (⟨taskSegment tss 11, tss⟩, noteSegment (gdt + 8 * 5) 2 mem) := by
  have found : lookupSegment ⟨gdtSize - 1, gdt⟩ mem gdtTss = .ok (taskSegment tss 9) :=
    congrArg Except.ok table.task
  have base : readSystemBase mem (TableRegister.entry ⟨gdtSize - 1, gdt⟩ gdtTss) = tss :=
    table.taskBase.trans (Nat.mod_eq_of_lt bound)
  have noted : (taskSegment tss 9).note 2 = taskSegment tss 11 := by
    unfold Segment.note taskSegment
    dsimp only
    rfl
  unfold loadTask
  rw [found, base]
  simp only [bind, Except.bind, noted]
  rfl

/-- The accessed bit of the kernel's data segment -/
theorem note_data (table : SegmentTable mem gdt tss code data busy) :
    SegmentTable (noteSegment (gdt + 8 * 2) 1 mem) gdt tss code (data ||| 1) busy := by
  constructor
  case kernelCode => exact (readSegment_note_of_ne (by omega)).trans table.kernelCode
  case kernelData =>
    rw [readSegment_note (by decide), table.kernelData]
    exact congrArg (fun kind => flatSegment kind 0 0) (Nat.or_assoc 2 data 1)
  case userCode => exact (readSegment_note_of_ne (by omega)).trans table.userCode
  case userData => exact (readSegment_note_of_ne (by omega)).trans table.userData
  case task => exact (readSegment_note_of_ne (by omega)).trans table.task
  case taskBase =>
    refine Eq.trans (readSystemBase_congr fun place low high => ?_) table.taskBase
    exact Mem.setBits_of_ne (by omega)

theorem loads_data (table : SegmentTable mem gdt tss code data busy)
    (kind : data = 0 ∨ data = 1) :
    ∃ mem', loadStack ⟨gdtSize - 1, gdt⟩ mem gdtKernelData = .ok (flatSegment 3 0 0, mem') ∧
      SegmentTable mem' gdt tss code (data ||| 1) busy :=
  ⟨_, table.loadStack_eq kind, table.note_data⟩

theorem note_code (table : SegmentTable mem gdt tss code data busy) :
    SegmentTable (noteSegment (gdt + 8 * 1) 1 mem) gdt tss (code ||| 1) data busy := by
  constructor
  case kernelCode =>
    rw [readSegment_note (by decide), table.kernelCode]
    exact congrArg (fun kind => flatSegment kind 0 1) (Nat.or_assoc 10 code 1)
  case kernelData => exact (readSegment_note_of_ne (by omega)).trans table.kernelData
  case userCode => exact (readSegment_note_of_ne (by omega)).trans table.userCode
  case userData => exact (readSegment_note_of_ne (by omega)).trans table.userData
  case task => exact (readSegment_note_of_ne (by omega)).trans table.task
  case taskBase =>
    refine Eq.trans (readSystemBase_congr fun place low high => ?_) table.taskBase
    exact Mem.setBits_of_ne (by omega)

theorem note_task (table : SegmentTable mem gdt tss code data busy) :
    SegmentTable (noteSegment (gdt + 8 * 5) 2 mem) gdt tss code data (busy ||| 2) := by
  constructor
  case kernelCode => exact (readSegment_note_of_ne (by omega)).trans table.kernelCode
  case kernelData => exact (readSegment_note_of_ne (by omega)).trans table.kernelData
  case userCode => exact (readSegment_note_of_ne (by omega)).trans table.userCode
  case userData => exact (readSegment_note_of_ne (by omega)).trans table.userData
  case task =>
    rw [readSegment_note (by decide), table.task]
    exact congrArg (taskSegment tss) (Nat.or_assoc 9 busy 2)
  case taskBase => exact readSystemBase_note.trans table.taskBase

/-- What `gdt_init` has loaded can be loaded again without a write. -/
theorem code_again (table : SegmentTable mem gdt tss 1 data busy) :
    loadCode ⟨gdtSize - 1, gdt⟩ mem gdtKernelCode = .ok (flatSegment 11 0 1, mem) := by
  rw [table.loadCode_eq (.inr rfl), noteSegment_again (by rw [table.kernelCode]; rfl)]

theorem stack_again (table : SegmentTable mem gdt tss code 1 busy) :
    loadStack ⟨gdtSize - 1, gdt⟩ mem gdtKernelData = .ok (flatSegment 3 0 0, mem) := by
  rw [table.loadStack_eq (.inr rfl), noteSegment_again (by rw [table.kernelData]; rfl)]

/-- The task state segment cannot. -/
theorem task_busy (table : SegmentTable mem gdt tss code data 2) :
    loadTask ⟨gdtSize - 1, gdt⟩ mem gdtTss = .error .generalProtection := by
  have found : lookupSegment ⟨gdtSize - 1, gdt⟩ mem gdtTss = .ok (taskSegment tss 11) :=
    congrArg Except.ok table.task
  unfold loadTask
  rw [found]
  rfl

end SegmentTable

/-- `gdt_init` raises no exception, and afterwards everything that it has loaded is noted. -/
theorem gdtInit_loaded {gdt tss : Nat} {mem : Mem}
    (apart : gdt + gdtSize ≤ tss ∨ tss + tssSize ≤ gdt) (bound : tss < 2 ^ 64) :
    ∃ s, gdtInit gdt tss mem = .ok s ∧ Loaded gdt tss s ∧ SegmentTable s.mem gdt tss 1 1 2 := by
  have built := @gdtEntries_segments mem gdt tss apart
  rcases built.loads_data (.inl rfl) with ⟨mem1, ds, table1⟩
  rcases table1.loads_data (.inr rfl) with ⟨mem2, es, table2⟩
  rcases table2.loads_data (.inr rfl) with ⟨mem3, ss, table3⟩
  rcases table3.loads_data (.inr rfl) with ⟨mem4, fs, table4⟩
  rcases table4.loads_data (.inr rfl) with ⟨mem5, gs, table5⟩
  have cs := table5.loadCode_eq (.inl rfl)
  have tr := table5.note_code.loadTask_eq bound
  refine ⟨⟨noteSegment (gdt + 8 * 5) 2 (noteSegment (gdt + 8 * 1) 1 mem5), ⟨gdtSize - 1, gdt⟩,
    flatSegment 3 0 0, flatSegment 3 0 0, flatSegment 3 0 0, flatSegment 3 0 0, flatSegment 3 0 0,
    flatSegment 11 0 1, ⟨taskSegment tss 11, tss⟩⟩, ?_, ⟨rfl, by simp, rfl, rfl⟩,
    table5.note_code.note_task⟩
  simp only [gdtInit, ds, es, ss, fs, gs, cs, tr, bind, Except.bind]

namespace KeepsTables

variable {gdt tss idt : Nat} {stub : Stub → BitVec 64} {mem mem' : Mem} {pics : Pics}

theorem segmentTable (keeps : KeepsTables gdt idt (isrInstall idt stub mem pics).mem mem')
    (placed : Placed gdt tss idt) {code data busy : Nat}
    (table : SegmentTable mem gdt tss code data busy) :
    SegmentTable mem' gdt tss code data busy := by
  have apart := placed.gdt_idt
  unfold gdtSize idtSize at apart
  refine table.congr fun place low high => ?_
  rw [keeps.segments place low high]
  unfold gdtSize at high
  refine (setGates_outside (by omega)).trans ?_
  rw [Mem.fill_apply, if_neg]
  unfold idtSize
  omega

theorem readGate_eq (keeps : KeepsTables gdt idt mem mem') {vector : Nat} (inside : vector < 256) :
    readGate mem' (idt + 16 * vector) = readGate mem (idt + 16 * vector) := by
  refine readGate_congr fun place low high => keeps.gates place (by omega) ?_
  unfold idtSize
  omega

/-- A vector with a stub -/
theorem enters_stub (keeps : KeepsTables gdt idt (isrInstall idt stub mem pics).mem mem')
    (table : SegmentTable mem' gdt tss 1 1 2) {vector : Nat} (set : vector < 48) :
    enterVector ⟨idtSize - 1, idt⟩ ⟨gdtSize - 1, gdt⟩ mem' vector =
      .ok (⟨(stub (gate vector)).toNat, gdtKernelCode, true, 0⟩, mem') := by
  have found := (keeps.readGate_eq (by omega)).trans (readGate_setGates set)
  have inside : 16 * vector + 15 ≤ idtSize - 1 := by
    unfold idtSize
    omega
  exact @enterVector_interrupt ⟨idtSize - 1, idt⟩ ⟨gdtSize - 1, gdt⟩ mem' vector _
    (flatSegment 11 0 1) mem' inside found rfl Nat.one_ne_zero table.code_again

/-- A vector without one -/
theorem enters_nothing (keeps : KeepsTables gdt idt (isrInstall idt stub mem pics).mem mem')
    (gdtr : TableRegister) {vector : Nat} (unset : 48 ≤ vector) :
    enterVector ⟨idtSize - 1, idt⟩ gdtr mem' vector = .error .generalProtection := by
  by_cases beyond : idtSize - 1 < 16 * vector + 15
  · exact enterVector_beyond beyond
  · unfold idtSize at beyond
    have kind : (readGate mem' (idt + 16 * vector)).kind = 0 := by
      rw [keeps.readGate_eq (by omega)]
      exact readGate_unset unset (by omega)
    apply enterVector_noGate
    · exact kind.trans_ne (by decide)
    · exact kind.trans_ne (by decide)

end KeepsTables

/-- After `gdt_init` and `isr_install`, and for as long as nobody writes to the tables, the
processor finds what the kernel has put there.  It does not write to them itself either: what is
loaded when an interrupt arrives was loaded by `gdt_init` before. -/
theorem installed_delivers {gdt tss idt : Nat} {stub : Stub → BitVec 64} {mem : Mem} {pics : Pics}
    (placed : Placed gdt tss idt) :
    ∃ s, gdtInit gdt tss mem = .ok s ∧ Loaded gdt tss s ∧
      ∀ mem', KeepsTables gdt idt (isrInstall idt stub s.mem pics).mem mem' →
        Delivers (isrInstall idt stub s.mem pics).idtr s.gdtr mem' stub tss := by
  rcases @gdtInit_loaded gdt tss mem placed.gdt_tss placed.tss_bound with ⟨s, done, loaded, base⟩
  refine ⟨s, done, loaded, fun mem' keeps => ?_⟩
  have table := keeps.segmentTable placed base
  rw [loaded.gdtr]
  constructor
  case stubs => exact fun vector set => keeps.enters_stub table set
  case others => exact fun vector unset => keeps.enters_nothing _ unset
  case code => exact table.code_again
  case stack => exact table.stack_again
  case task => exact congrArg Except.ok table.task
  case busy => exact table.task_busy
  case null => rfl
  case user => exact ⟨congrArg Except.ok table.userCode, congrArg Except.ok table.userData⟩

/-- Directly after the installation the tables are what was installed. -/
theorem installed_delivers_small :
    let chip : Pic := ⟨0, 0, 0, 0, 0, false, false, .mask⟩
    ∃ s, gdtInit 0x1000 0x2000 (fun _ => 0) = .ok s ∧ Loaded 0x1000 0x2000 s ∧
      let gates := isrInstall 0x4000 (fun _ => 0x100000) s.mem ⟨chip, chip⟩
      Delivers gates.idtr s.gdtr gates.mem (fun _ => 0x100000) 0x2000 := by
  intro chip
  rcases @installed_delivers 0x1000 0x2000 0x4000 (fun _ => 0x100000) (fun _ => 0) ⟨chip, chip⟩
    ⟨by decide, by decide, by decide⟩ with ⟨s, done, loaded, delivers⟩
  exact ⟨s, done, loaded, delivers _ ⟨fun _ _ _ => rfl, fun _ _ _ => rfl⟩⟩

end Interrupts
end AuraKernel
