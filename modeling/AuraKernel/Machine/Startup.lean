import AuraKernel.Machine.Cpu
import AuraKernel.Machine.Descriptors
import Mathlib.Logic.Relation

namespace AuraKernel
namespace Machine
namespace Startup

/-!
# A processor on its way to long mode

A processor starts in 32-bit protected mode without paging, and the code that it
finds brings it to 64-bit mode.  The module has the instructions that such code
needs, the control registers with what the processor checks when they are written,
and rules for runs of a listing.

The listing is kept apart from the memory.  Segments are flat.  Of the accesses
through pages the model knows those to pages that are mapped to themselves; any
other access ends the run, as do the cases that are left out.  What the processor
notes in its tables is part of the memory: the accessed bit of a segment that is
loaded, and whatever a page walk sets in the entries that it uses.
-/

abbrev eax : Reg := .rax
abbrev ebx : Reg := .rbx
abbrev ecx : Reg := .rcx
abbrev edx : Reg := .rdx
abbrev esi : Reg := .rsi
abbrev edi : Reg := .rdi
abbrev esp : Reg := .rsp

/-! ## The state -/

/-- The flags that the instructions below set or read. -/
structure Flags where
  carry : Bool
  zero : Bool
  interrupt : Bool
  direction : Bool
  ident : Bool -- can be changed if there is `cpuid`
deriving DecidableEq, Repr

/-- `EFLAGS`; bit 1 is always set -/
def Flags.word (f : Flags) : BitVec 32 :=
  BitVec.ofNat 32 (f.carry.toNat + 2 + 2 ^ 6 * f.zero.toNat + 2 ^ 9 * f.interrupt.toNat +
    2 ^ 10 * f.direction.toNat + 2 ^ 21 * f.ident.toNat)

def Flags.ofWord (word : BitVec 32) : Flags where
  carry := word.getLsbD 0
  zero := word.getLsbD 6
  interrupt := word.getLsbD 9
  direction := word.getLsbD 10
  ident := word.getLsbD 21

/-- The carry behind a subtraction -/
@[irreducible] def below (a b : BitVec 32) : Bool := a < b

/-- The zero flag behind a subtraction -/
@[irreducible] def equals (a b : BitVec 32) : Bool := a = b

inductive SegReg where
  | ds | es | fs | gs | ss
deriving DecidableEq, Repr

inductive Status (Sym : Type) where
  | running
  | halted -- until an interrupt that cannot be masked
  | called (function : Sym)
deriving DecidableEq, Repr

structure State (Sym : Type) where
  low : Reg → BitVec 32
  high : Reg → BitVec 32 -- out of reach of 32-bit code
  flags : Flags
  cr0 : BitVec 32
  cr3 : BitVec 32
  cr4 : BitVec 32
  efer : BitVec 64
  gdtr : TableRegister
  cs : Segment
  data : SegReg → BitVec 16
  mem : Mem
  pc : Nat -- in the listing
  status : Status Sym

/-- The registers that `cpuid` fills. -/
structure Leaf where
  eax : BitVec 32
  ebx : BitVec 32
  ecx : BitVec 32
  edx : BitVec 32

/-- What processors differ in; and the page walk from the table at an address, with what a walk
for a read or for a write sets in the tables. -/
structure Processor where
  identifies : Bool -- there is `cpuid`
  cpuid : BitVec 32 → Leaf
  walk : Mem → Nat → Nat → Option Nat
  note : Bool → Nat → Nat → Mem → Mem

/-- The processor has long mode, and says so. -/
def Processor.LongMode (p : Processor) : Prop :=
  p.identifies = true ∧ 0x80000001 ≤ (p.cpuid 0x80000000).eax ∧
    (p.cpuid 0x80000001).edx.getLsbD 29 = true

instance (p : Processor) : Decidable p.LongMode := inferInstanceAs (Decidable (_ ∧ _ ∧ _))

/-- Bytes that are read or written. -/
structure Access where
  addr : Nat
  count : Nat
  write : Bool

/-- The tables after the walks for the first `count` bytes of an access. -/
def Processor.touch (p : Processor) (root : Nat) (access : Access) : Nat → Mem → Mem
  | 0, mem => mem
  | count + 1, mem => p.note access.write root (access.addr + count) (p.touch root access count mem)

/-- Where the symbols and the instructions of the listing are. -/
structure Image (Sym : Type) where
  addr : Sym → BitVec 32
  code : Nat → Nat

inductive Fault where
  | exception (e : Exc)
  | invalidOpcode
  | pageFault
  | stopped
  | leftOut
deriving DecidableEq, Repr

/-! ## The instructions -/

inductive Operand (Sym : Type) where
  | imm (value : BitVec 32)
  | sym (name : Sym)
  | reg (r : Reg)
deriving DecidableEq

inductive Place (Sym : Type) where
  | abs (base : Sym)
  | scaled (base : Sym) (offset : Nat) (index : Reg) -- by 8
deriving DecidableEq

inductive Cond where
  | always
  | equal
  | notEqual
  | below
deriving DecidableEq

inductive Control where
  | cr0 | cr3 | cr4
deriving DecidableEq

/-- The instructions; the source operand comes first. -/
inductive Instr (Sym Lab : Type) where
  | cli
  | cld
  | hlt
  | mov (src : Operand Sym) (dst : Reg)
  | store (src : Operand Sym) (dst : Place Sym)
  | load (src : Place Sym) (dst : Reg)
  | push (src : Reg)
  | pop (dst : Reg)
  | pushf
  | popf
  | or (src : Operand Sym) (dst : Reg)
  | xor (src : Operand Sym) (dst : Reg)
  | add (src : Operand Sym) (dst : Reg)
  | inc (dst : Reg)
  | cmp (src : Operand Sym) (dst : Reg)
  | test (src : Operand Sym) (dst : Reg)
  | jump (cond : Cond) (target : Lab)
  | cpuid
  | repStos
  | readControl (src : Control) (dst : Reg)
  | writeControl (src : Reg) (dst : Control)
  | rdmsr
  | wrmsr
  | lgdt (src : Sym)
  | farJump (selector : Nat) (target : Lab)
  | movWord (value : BitVec 16) (dst : Reg)
  | movSegment (src : Reg) (dst : SegReg)
  | movQuad (src : Sym) (dst : Reg)
  | call (target : Sym)
deriving DecidableEq

inductive Line (Sym Lab : Type) where
  | label (name : Lab)
  | code32 (i : Instr Sym Lab)
  | code64 (i : Instr Sym Lab)
deriving DecidableEq

namespace State

variable {Sym : Type}

def paging (s : State Sym) : Bool := s.cr0.getLsbD 31

def longActive (s : State Sym) : Bool := s.efer.getLsbD 10

/-- The processor takes the code for 64-bit code. -/
def wide (s : State Sym) : Bool := s.longActive && s.cs.long == 1

/-- A new value for the lower half of a register; 64-bit code clears the upper half. -/
def set (wide : Bool) (dst : Reg) (value : BitVec 32) (s : State Sym) : State Sym :=
  { s with
    low := Function.update s.low dst value
    high := if wide then Function.update s.high dst 0 else s.high }

/-- A new value for a whole register. -/
def setWide (dst : Reg) (value : BitVec 64) (s : State Sym) : State Sym :=
  { s with
    low := Function.update s.low dst (value.setWidth 32)
    high := Function.update s.high dst ((value >>> 32).setWidth 32) }

def push (value : BitVec 32) (s : State Sym) : State Sym :=
  { s.set false esp (s.low esp - 4) with
    mem := s.mem.store32 (s.low esp - 4).toNat value.toNat }

/-- The word that is taken from the stack. -/
def top (s : State Sym) : BitVec 32 := BitVec.ofNat 32 (s.mem.load32 (s.low esp).toNat)

def pop (s : State Sym) : State Sym := s.set false esp (s.low esp + 4)

def rsp (s : State Sym) : BitVec 64 := s.high esp ++ s.low esp

def control (s : State Sym) : Control → BitVec 32
  | .cr0 => s.cr0
  | .cr3 => s.cr3
  | .cr4 => s.cr4

/-- The flags after a logical instruction. -/
def logical (result : BitVec 32) (s : State Sym) : State Sym :=
  { s with flags := { s.flags with carry := false, zero := equals result 0 } }

/-- Where the page walk starts. -/
def root (s : State Sym) : Nat := s.cr3.toNat / 4096 * 4096

/-- The bytes of an access can be reached. -/
def Open (p : Processor) (s : State Sym) (access : Access) : Prop :=
  s.paging = false ∨
    ∀ i < access.count, p.walk s.mem s.root (access.addr + i) = some (access.addr + i)

instance (p : Processor) (s : State Sym) (access : Access) : Decidable (s.Open p access) :=
  inferInstanceAs (Decidable (_ ∨ _))

def Ready (p : Processor) (s : State Sym) (accesses : List Access) : Prop :=
  ∀ access ∈ accesses, s.Open p access

instance (p : Processor) (s : State Sym) (accesses : List Access) :
    Decidable (s.Ready p accesses) := inferInstanceAs (Decidable (∀ access ∈ accesses, _))

/-- The state after the page walks for a list of accesses. -/
def touch (p : Processor) (accesses : List Access) (s : State Sym) : State Sym :=
  { s with
    mem :=
      if s.paging then
        accesses.foldl (fun mem access => p.touch s.root access access.count mem) s.mem
      else s.mem }

end State

section Execution

variable {Sym Lab : Type}

def Operand.value (image : Image Sym) (s : State Sym) : Operand Sym → BitVec 32
  | imm value => value
  | sym name => image.addr name
  | reg r => s.low r

def Place.address (image : Image Sym) (s : State Sym) : Place Sym → BitVec 32
  | abs base => image.addr base
  | scaled base offset index => image.addr base + BitVec.ofNat 32 offset + 8 * s.low index

def Cond.Holds (f : Flags) : Cond → Bool
  | always => true
  | equal => f.zero
  | notEqual => !f.zero
  | below => f.carry

def Line.isLabel [DecidableEq Lab] (target : Lab) : Line Sym Lab → Bool
  | label name => name = target
  | code32 _ => false
  | code64 _ => false

/-- `rep stosl`: the words that are stored, each `delta` behind the one before -/
@[irreducible] def stos (value delta : BitVec 32) : Nat → BitVec 32 → Mem → Mem
  | 0, _, mem => mem
  | count + 1, addr, mem =>
      stos value delta count (addr + delta) (mem.store32 addr.toNat value.toNat)

/-- A segment is read, and written if its accessed bit is still clear. -/
def State.segmentAccess (s : State Sym) (selector : Nat) : Access where
  addr := s.gdtr.entry selector
  count := 8
  write := (s.mem (s.gdtr.entry selector + 5)).toNat % 2 = 0

/-- The bytes of the memory that an instruction reads or writes. -/
def Instr.accesses (image : Image Sym) (s : State Sym) : Instr Sym Lab → List Access
  | store _ dst => [⟨(dst.address image s).toNat, 4, true⟩]
  | load src _ => [⟨(src.address image s).toNat, 4, false⟩]
  | push _ | pushf => [⟨(s.low esp - 4).toNat, 4, true⟩]
  | pop _ | popf => [⟨(s.low esp).toNat, 4, false⟩]
  | repStos =>
      let first := if s.flags.direction then s.low edi + 4 - 4 * s.low ecx else s.low edi
      [⟨first.toNat, 4 * (s.low ecx).toNat, true⟩]
  | lgdt src => [⟨(image.addr src).toNat, 6, false⟩]
  | farJump selector _ => [s.segmentAccess selector]
  | movSegment src _ => [s.segmentAccess ((s.low src).toNat % 2 ^ 16)]
  | call _ => [⟨(s.rsp - 8).toNat, 8, true⟩]
  | _ => []

/-- With the fetch: no instruction has more than 15 bytes. -/
def Instr.walks (image : Image Sym) (s : State Sym) (i : Instr Sym Lab) : List Access :=
  ⟨image.code s.pc, 15, false⟩ :: i.accesses image s

/-- The exceptions of the checks are faults. -/
def checked {α : Type} : Except Exc α → Except Fault α
  | .ok value => .ok value
  | .error e => .error (.exception e)

def writeCr0 (value : BitVec 32) (s : State Sym) : Except Fault (State Sym) :=
  if value.getLsbD 31 = false then
    if s.paging then .error .leftOut else .ok { s with cr0 := value }
  else if value.getLsbD 0 = false then .error (.exception .generalProtection)
  else if s.paging then .ok { s with cr0 := value }
  -- Paging is turned on: with it long mode becomes active if it is enabled.
  else if s.efer.getLsbD 8 = false then .error .leftOut
  else if s.cr4.getLsbD 5 = false ∨ s.cs.long = 1 then .error (.exception .generalProtection)
  else .ok { s with cr0 := value, efer := s.efer ||| BitVec.twoPow 64 10 }

def writeControl (value : BitVec 32) (s : State Sym) : Control → Except Fault (State Sym)
  | .cr0 => writeCr0 value s
  | .cr3 => .ok { s with cr3 := value }
  | .cr4 =>
      if s.longActive ∧ value.getLsbD 5 = false then .error (.exception .generalProtection)
      else .ok { s with cr4 := value }

/-- The effect of an instruction, with the program counter behind it. -/
def Instr.effect [DecidableEq Lab] (p : Processor) (image : Image Sym)
    (code : List (Line Sym Lab)) (wide : Bool) (s : State Sym) :
    Instr Sym Lab → Except Fault (State Sym)
  | cli => .ok { s with flags := { s.flags with interrupt := false } }
  | cld => .ok { s with flags := { s.flags with direction := false } }
  | hlt => if s.flags.interrupt then .error .leftOut else .ok { s with status := .halted }
  | mov src dst => .ok (s.set wide dst (src.value image s))
  | store src dst =>
      .ok { s with mem := s.mem.store32 (dst.address image s).toNat (src.value image s).toNat }
  | load src dst =>
      .ok (s.set wide dst (BitVec.ofNat 32 (s.mem.load32 (src.address image s).toNat)))
  | push src => .ok (s.push (s.low src))
  | pushf => .ok (s.push s.flags.word)
  | pop dst => .ok (s.pop.set false dst s.top)
  | popf =>
      let flags := Flags.ofWord s.top
      let ident := if p.identifies then flags.ident else s.flags.ident
      .ok { s.pop with flags := { flags with ident := ident } }
  | or src dst =>
      let result := s.low dst ||| src.value image s
      .ok ((s.set wide dst result).logical result)
  | xor src dst =>
      let result := s.low dst ^^^ src.value image s
      .ok ((s.set wide dst result).logical result)
  | add src dst =>
      let result := s.low dst + src.value image s
      let flags := { s.flags with carry := below result (s.low dst), zero := equals result 0 }
      .ok { s.set wide dst result with flags := flags }
  | inc dst =>
      let result := s.low dst + 1
      .ok { s.set wide dst result with flags := { s.flags with zero := equals result 0 } }
  | cmp src dst =>
      let value := src.value image s
      let carry := below (s.low dst) value
      .ok { s with flags := { s.flags with carry := carry, zero := equals (s.low dst) value } }
  | test src dst => .ok (s.logical (s.low dst &&& src.value image s))
  | jump cond target =>
      let pc := if cond.Holds s.flags then code.findIdx (Line.isLabel target) else s.pc
      .ok { s with pc := pc }
  | cpuid =>
      if p.identifies then
        let leaf := p.cpuid (s.low eax)
        .ok ((((s.set wide eax leaf.eax).set wide ebx leaf.ebx).set wide ecx leaf.ecx).set wide edx
          leaf.edx)
      else .error .invalidOpcode
  | repStos =>
      let delta := if s.flags.direction then -4 else 4
      let mem := stos (s.low eax) delta (s.low ecx).toNat (s.low edi) s.mem
      .ok { (s.set wide edi (s.low edi + delta * s.low ecx)).set wide ecx 0 with mem := mem }
  | readControl src dst => .ok (s.set wide dst (s.control src))
  | writeControl src dst => Startup.writeControl (s.low src) s dst
  | rdmsr =>
      if s.low ecx ≠ 0xC0000080 then .error .leftOut
      else if ¬ p.LongMode then .error (.exception .generalProtection)
      else .ok ((s.set wide eax (s.efer.setWidth 32)).set wide edx ((s.efer >>> 32).setWidth 32))
  | wrmsr =>
      let value := s.low edx ++ s.low eax
      if s.low ecx ≠ 0xC0000080 then .error .leftOut
      else if ¬ p.LongMode then .error (.exception .generalProtection)
      else if s.paging ∧ value.getLsbD 8 ≠ s.efer.getLsbD 8 then
        .error (.exception .generalProtection)
      -- The bit that says whether long mode is active cannot be written.
      else .ok { s with
          efer := (value &&& ~~~BitVec.twoPow 64 10) ||| (s.efer &&& BitVec.twoPow 64 10) }
  | lgdt src =>
      let addr := (image.addr src).toNat
      .ok { s with gdtr := { limit := s.mem.load addr 2, base := s.mem.load32 (addr + 2) } }
  | farJump selector target =>
      if s.longActive = false then .error .leftOut
      else
        (checked (loadCode s.gdtr s.mem selector)).map fun (segment, mem) =>
          { s with cs := segment, mem := mem, pc := code.findIdx (Line.isLabel target) }
  | movWord value dst =>
      let result := (s.low dst).extractLsb' 16 16 ++ value
      .ok { s with low := Function.update s.low dst result }
  | movSegment src dst =>
      let selector := (s.low src).setWidth 16
      (checked (loadStack s.gdtr s.mem selector.toNat)).map fun (_, mem) =>
        { s with mem := mem, data := Function.update s.data dst selector }
  | movQuad src dst => .ok (s.setWide dst ((image.addr src).signExtend 64))
  | call target =>
      let mem := s.mem.store64 (s.rsp - 8).toNat (image.code s.pc)
      .ok { s.setWide esp (s.rsp - 8) with mem := mem, status := .called target }

/-- The model has some instructions for code of one width only. -/
def Instr.fits : Instr Sym Lab → Bool → Bool
  | push _, wide | pop _, wide | pushf, wide | popf, wide | repStos, wide | readControl _ _, wide
  | writeControl _ _, wide | lgdt _, wide | farJump _ _, wide => !wide
  | movQuad _ _, wide | call _, wide => wide
  | _, _ => true

/-- An instruction is fetched and carried out. -/
def Instr.step [DecidableEq Lab] (p : Processor) (image : Image Sym)
    (code : List (Line Sym Lab)) (s : State Sym) (wide : Bool) (i : Instr Sym Lab) :
    Except Fault (State Sym) :=
  if wide ≠ s.wide ∨ i.fits wide = false then .error .leftOut
  else if s.Ready p (i.walks image s) then
    i.effect p image code wide { s.touch p (i.walks image s) with pc := s.pc + 1 }
  else .error .pageFault

/-- The next line of the listing. -/
def step [DecidableEq Lab] (p : Processor) (image : Image Sym) (code : List (Line Sym Lab))
    (s : State Sym) : Except Fault (State Sym) :=
  match s.status, code[s.pc]? with
  | .running, some (.label _) => .ok { s with pc := s.pc + 1 }
  | .running, some (.code32 i) => i.step p image code s false
  | .running, some (.code64 i) => i.step p image code s true
  | .running, none => .error .leftOut
  | _, _ => .error .stopped

/-! ## Words -/

theorem Flags.ofWord_word (f : Flags) : Flags.ofWord f.word = f := by
  rcases f with ⟨carry, zero, interrupt, direction, ident⟩
  revert carry zero interrupt direction ident
  decide

/-- The flag by which `cpuid` is looked for. -/
theorem Flags.word_xor_ident (f : Flags) :
    f.word ^^^ BitVec.twoPow 32 21 = { f with ident := !f.ident }.word := by
  rcases f with ⟨carry, zero, interrupt, direction, ident⟩
  revert carry zero interrupt direction ident
  decide

theorem Flags.word_inj {f f' : Flags} (same : f.word = f'.word) : f = f' := by
  rw [← f.ofWord_word, ← f'.ofWord_word, same]

theorem loaded_of_stored (mem : Mem) (addr : Nat) (value : BitVec 32) :
    BitVec.ofNat 32 ((mem.store32 addr value.toNat).load32 addr) = value := by
  rw [Mem.load32_store32_same, wrap32_of_lt value.isLt, BitVec.ofNat_toNat, BitVec.setWidth_eq]

/-- Zeros that are stored upwards fill the memory. -/
theorem stos_zero (count : Nat) (addr : BitVec 32) (mem : Mem)
    (fits : addr.toNat + 4 * count < 2 ^ 32) :
    stos 0 4 count addr mem = mem.fill addr.toNat 0 (4 * count) := by
  induction count generalizing addr mem with
  | zero => rw [stos, Nat.mul_zero, Mem.fill]
  | succ count inductionHypothesis =>
      have next : (addr + 4).toNat = addr.toNat + 4 := by
        rw [BitVec.toNat_add]
        exact Nat.mod_eq_of_lt (by change _ + 4 < _; omega)
      rw [stos, inductionHypothesis (addr + 4) _ (by omega), next]
      funext place
      rw [Mem.fill_apply, Mem.fill_apply]
      by_cases first : addr.toNat ≤ place ∧ place < addr.toNat + 4
      · rw [if_neg (by omega), if_pos (by omega)]
        unfold Mem.store32 Mem.store
        rw [if_pos first]
        simp
      · rw [Mem.store32_apply_of_outside (by omega)]
        by_cases later : addr.toNat + 4 ≤ place ∧ place < addr.toNat + 4 + 4 * count
        · rw [if_pos later, if_pos (by omega)]
        · rw [if_neg later, if_neg (by omega)]

/-! ## Effects with conditions -/

section Effects

variable [DecidableEq Lab] {p : Processor} {image : Image Sym} {code : List (Line Sym Lab)}
  {wide : Bool} {s : State Sym}

/-- Paging is turned on with long mode enabled. -/
theorem writeCr0_enables {value : BitVec 32} (pg : value.getLsbD 31 = true)
    (pe : value.getLsbD 0 = true) (flat : s.paging = false) (lme : s.efer.getLsbD 8 = true)
    (pae : s.cr4.getLsbD 5 = true) (legacy : s.cs.long ≠ 1) :
    writeCr0 value s = .ok { s with cr0 := value, efer := s.efer ||| BitVec.twoPow 64 10 } := by
  unfold writeCr0
  rw [pg, pe, flat, lme, pae, if_neg (by decide), if_neg (by decide), if_neg (by decide),
    if_neg (by decide), if_neg fun either => either.elim (by decide) legacy]

theorem writeCr4_legacy {value : BitVec 32} (legacy : s.longActive = false) :
    writeControl value s .cr4 = .ok { s with cr4 := value } := by
  unfold writeControl
  rw [legacy, if_neg fun both => Bool.false_ne_true both.1]

theorem effect_rdmsr (register : s.low ecx = 0xC0000080) (longMode : p.LongMode) :
    (Instr.rdmsr : Instr Sym Lab).effect p image code wide s =
      .ok ((s.set wide eax (s.efer.setWidth 32)).set wide edx ((s.efer >>> 32).setWidth 32)) := by
  refine (if_neg fun other => other register).trans ?_
  exact if_neg fun other => other longMode

theorem effect_wrmsr (register : s.low ecx = 0xC0000080) (longMode : p.LongMode)
    (flat : s.paging = false) :
    (Instr.wrmsr : Instr Sym Lab).effect p image code wide s =
      .ok { s with
        efer := ((s.low edx ++ s.low eax) &&& ~~~BitVec.twoPow 64 10) |||
          (s.efer &&& BitVec.twoPow 64 10) } := by
  refine (if_neg fun other => other register).trans ?_
  refine (if_neg fun other => other longMode).trans ?_
  exact if_neg fun both => Bool.false_ne_true (flat.symm.trans both.1)

theorem effect_farJump {selector : Nat} {target : Lab} {segment : Segment} {mem : Mem}
    (active : s.longActive = true) (found : loadCode s.gdtr s.mem selector = .ok (segment, mem)) :
    (Instr.farJump selector target : Instr Sym Lab).effect p image code wide s =
      .ok { s with cs := segment, mem := mem, pc := code.findIdx (Line.isLabel target) } := by
  refine (if_neg fun inactive => Bool.false_ne_true (inactive.symm.trans active)).trans ?_
  rw [found]
  rfl

theorem effect_movSegment {src : Reg} {dst : SegReg} {selector : BitVec 16} {segment : Segment}
    {mem : Mem} (named : (s.low src).setWidth 16 = selector)
    (found : loadStack s.gdtr s.mem selector.toNat = .ok (segment, mem)) :
    (Instr.movSegment src dst : Instr Sym Lab).effect p image code wide s =
      .ok { s with mem := mem, data := Function.update s.data dst selector } := by
  subst named
  change (checked (loadStack s.gdtr s.mem ((s.low src).setWidth 16).toNat)).map _ = _
  rw [found]
  rfl

theorem rsp_setWide (value : BitVec 64) : (s.setWide esp value).rsp = value := by
  unfold State.rsp State.setWide
  dsimp only
  rw [Function.update_self, Function.update_self]
  apply BitVec.eq_of_getLsbD_eq
  intro i inside
  rw [BitVec.getLsbD_append]
  by_cases lower : i < 32
  · rw [if_pos lower, BitVec.getLsbD_setWidth, decide_eq_true lower, Bool.true_and]
  · rw [if_neg lower, BitVec.getLsbD_setWidth, BitVec.getLsbD_ushiftRight,
      decide_eq_true (by omega), Bool.true_and]
    exact congrArg value.getLsbD (by omega)

/-- What lies below a bound can be reached if the pages there are mapped to themselves. -/
theorem ready_of_mapped {bound : Nat}
    (mapped : ∀ virt, virt < bound → p.walk s.mem s.root virt = some virt)
    {accesses : List Access} (low : ∀ access ∈ accesses, access.addr + access.count ≤ bound) :
    s.Ready p accesses := by
  intro access listed
  right
  intro i inside
  have := low access listed
  exact mapped _ (by omega)

section Keeping

variable {inv : Mem → Prop} {bound : Nat}
  (keeps : ∀ mem write addr, addr < bound → inv mem → inv (p.note write s.root addr mem))

include keeps

/-- The walks for an access below a bound keep what each of them keeps. -/
theorem access_keeps {access : Access} {count : Nat} {mem : Mem}
    (low : access.addr + count ≤ bound) (start : inv mem) :
    inv (p.touch s.root access count mem) := by
  induction count with
  | zero => exact start
  | succ count inductionHypothesis =>
      exact keeps _ _ _ (by omega) (inductionHypothesis (by omega))

theorem touch_keeps {accesses : List Access}
    (low : ∀ access ∈ accesses, access.addr + access.count ≤ bound) (start : inv s.mem) :
    inv (s.touch p accesses).mem := by
  unfold State.touch
  by_cases paging : s.paging = true
  · rw [if_pos paging]
    exact List.foldlRecOn accesses _ start fun mem before access listed =>
      access_keeps keeps (low access listed) before
  · rw [if_neg paging]
    exact start

end Keeping

theorem touch_of_flat (flat : s.paging = false) (accesses : List Access) :
    s.touch p accesses = s := by
  unfold State.touch
  rw [flat, if_neg Bool.false_ne_true]

end Effects

/-! ## Runs -/

/-- A run from one state to another. -/
def Runs [DecidableEq Lab] (p : Processor) (image : Image Sym) (code : List (Line Sym Lab)) :
    State Sym → State Sym → Prop :=
  Relation.ReflTransGen fun s s' => step p image code s = .ok s'

/-- The run from a state gets to one with a property. -/
def Leads [DecidableEq Lab] (p : Processor) (image : Image Sym) (code : List (Line Sym Lab))
    (s : State Sym) (goal : State Sym → Prop) : Prop :=
  ∃ s', Runs p image code s s' ∧ goal s'

section Rules

variable [DecidableEq Lab] {p : Processor} {image : Image Sym} {code : List (Line Sym Lab)}
  {s s' : State Sym} {goal goal' : State Sym → Prop} {pc : Nat} {i : Instr Sym Lab}

theorem Leads.done (reached : goal s) : Leads p image code s goal :=
  ⟨s, Relation.ReflTransGen.refl, reached⟩

theorem Leads.head (first : step p image code s = .ok s') (rest : Leads p image code s' goal) :
    Leads p image code s goal := by
  rcases rest with ⟨last, run, reached⟩
  exact ⟨last, Relation.ReflTransGen.head first run, reached⟩

theorem Leads.trans (first : Leads p image code s goal)
    (rest : ∀ s', goal s' → Leads p image code s' goal') : Leads p image code s goal' := by
  rcases first with ⟨middle, run, reached⟩
  rcases rest middle reached with ⟨last, run', reached'⟩
  exact ⟨last, Relation.ReflTransGen.trans run run', reached'⟩

theorem Leads.mono (leads : Leads p image code s goal) (weaker : ∀ s', goal s' → goal' s') :
    Leads p image code s goal' :=
  leads.trans fun s' reached => Leads.done (weaker s' reached)

/-- A loop whose rounds keep an invariant. -/
theorem Leads.loop {inv : Nat → State Sym → Prop} {rounds : Nat}
    (round : ∀ n, n < rounds → ∀ s, inv n s → Leads p image code s (inv (n + 1)))
    (start : inv 0 s) : Leads p image code s (inv rounds) := by
  have upTo : ∀ n, n ≤ rounds → Leads p image code s (inv n) := by
    intro n
    induction n with
    | zero => exact fun _ => Leads.done start
    | succ n inductionHypothesis =>
        intro inside
        exact (inductionHypothesis (Nat.le_of_lt inside)).trans (round n inside)
  exact upTo rounds (Nat.le_refl rounds)

theorem Leads.label {name : Lab} (running : s.status = .running) (here : s.pc = pc)
    (found : code[pc]? = some (.label name))
    (rest : Leads p image code { s with pc := pc + 1 } goal) : Leads p image code s goal := by
  subst here
  refine Leads.head ?_ rest
  unfold step
  rw [running, found]

/-- A 32-bit instruction whose accesses can be made. -/
theorem Leads.code32 (running : s.status = .running) (here : s.pc = pc)
    (found : code[pc]? = some (.code32 i)) (narrow : s.wide = false) (fits : i.fits false = true)
    (ready : s.Ready p (i.walks image s))
    (done : i.effect p image code false { s.touch p (i.walks image s) with pc := pc + 1 } = .ok s')
    (rest : Leads p image code s' goal) : Leads p image code s goal := by
  subst here
  refine Leads.head ?_ rest
  unfold step
  rw [running, found]
  dsimp only
  unfold Instr.step
  rw [narrow, fits, if_neg (by decide), if_pos ready, done]

theorem Leads.code64 (running : s.status = .running) (here : s.pc = pc)
    (found : code[pc]? = some (.code64 i)) (wide : s.wide = true) (fits : i.fits true = true)
    (ready : s.Ready p (i.walks image s))
    (done : i.effect p image code true { s.touch p (i.walks image s) with pc := pc + 1 } = .ok s')
    (rest : Leads p image code s' goal) : Leads p image code s goal := by
  subst here
  refine Leads.head ?_ rest
  unfold step
  rw [running, found]
  dsimp only
  unfold Instr.step
  rw [wide, fits, if_neg (by decide), if_pos ready, done]

theorem ready_of_flat (flat : s.paging = false) (accesses : List Access) :
    s.Ready p accesses := fun _ _ => .inl flat

/-- A 32-bit instruction before long mode is active and paging is on. -/
theorem Leads.flat (running : s.status = .running) (here : s.pc = pc)
    (found : code[pc]? = some (.code32 i)) (legacy : s.efer.getLsbD 10 = false)
    (fits : i.fits false = true) (flat : s.cr0.getLsbD 31 = false)
    (done : i.effect p image code false { s with pc := pc + 1 } = .ok s')
    (rest : Leads p image code s' goal) : Leads p image code s goal := by
  have narrow : s.wide = false := by
    unfold State.wide State.longActive
    rw [legacy, Bool.false_and]
  refine Leads.code32 running here found narrow fits (ready_of_flat flat _) ?_ rest
  rw [touch_of_flat flat]
  exact done

theorem Leads.jump {cond : Cond} {name : Lab} {target : Nat} (running : s.status = .running)
    (here : s.pc = pc) (found : code[pc]? = some (.code32 (.jump cond name)))
    (legacy : s.efer.getLsbD 10 = false) (flat : s.cr0.getLsbD 31 = false)
    (position : code.findIdx (Line.isLabel name) = target)
    (rest : Leads p image code
      { s with pc := if cond.Holds s.flags then target else pc + 1 } goal) :
    Leads p image code s goal := by
  subst position
  exact Leads.flat running here found legacy rfl flat rfl rest

end Rules

end Execution

end Startup
end Machine
end AuraKernel
