import AuraKernel.Machine.Memory
import Mathlib.Logic.Function.Basic

namespace AuraKernel
namespace Machine

/-!
# A processor with a stack

The few x86-64 instructions that save and restore contexts: pushes and pops,
moves between registers, a load and a store through a register, an addition to a
register, calls and returns.  `Stacked` lists the words on top of the stack; a
push adds one in front and a pop takes it away.  The stack pointer may wrap: as
long as it is a multiple of 8 no two words overlap.
-/

inductive Reg where
  | rax | rbx | rcx | rdx | rsi | rdi | rbp | rsp
  | r8 | r9 | r10 | r11 | r12 | r13 | r14 | r15
deriving DecidableEq, Repr

/-- The registers, the instruction pointer and the memory. -/
structure Cpu where
  regs : Reg → BitVec 64
  rip : BitVec 64
  mem : Mem

def Mem.word (mem : Mem) (addr : BitVec 64) : BitVec 64 := BitVec.ofNat 64 (mem.load64 addr.toNat)

def Mem.setWord (mem : Mem) (addr value : BitVec 64) : Mem := mem.store64 addr.toNat value.toNat

namespace Cpu

def rsp (c : Cpu) : BitVec 64 := c.regs .rsp

def setReg (c : Cpu) (dst : Reg) (value : BitVec 64) : Cpu :=
  { c with regs := Function.update c.regs dst value }

def push (value : BitVec 64) (c : Cpu) : Cpu :=
  { c.setReg .rsp (c.rsp - 8) with mem := c.mem.setWord (c.rsp - 8) value }

def pop (dst : Reg) (c : Cpu) : Cpu := (c.setReg .rsp (c.rsp + 8)).setReg dst (c.mem.word c.rsp)

def ret (c : Cpu) : Cpu := { c.setReg .rsp (c.rsp + 8) with rip := c.mem.word c.rsp }

/-- `call`, with the address of the instruction behind it. -/
def call (target returnAddr : BitVec 64) (c : Cpu) : Cpu :=
  { c.push returnAddr with rip := target }

end Cpu

/-- The instructions without a jump; the source operand comes first. -/
inductive Instr where
  | pushReg (src : Reg)
  | pushImm (value : BitVec 64)
  | popReg (dst : Reg)
  | mov (src dst : Reg)
  | store (src base : Reg)
  | load (base dst : Reg)
  | addImm (value : BitVec 64) (dst : Reg)
deriving DecidableEq, Repr

def Instr.exec : Instr → Cpu → Cpu
  | pushReg src, c => c.push (c.regs src)
  | pushImm value, c => c.push value
  | popReg dst, c => c.pop dst
  | mov src dst, c => c.setReg dst (c.regs src)
  | store src base, c => { c with mem := c.mem.setWord (c.regs base) (c.regs src) }
  | load base dst, c => c.setReg dst (c.mem.word (c.regs base))
  | addImm value dst, c => c.setReg dst (c.regs dst + value)

/-- The effect of a list of instructions. -/
def Cpu.run : List Instr → Cpu → Cpu
  | [], c => c
  | instr :: rest, c => Cpu.run rest (instr.exec c)

/-! ## Words -/

section Words

variable {mem : Mem} {addr other value : BitVec 64}

@[simp] theorem Mem.word_setWord_same (mem : Mem) (addr value : BitVec 64) :
    (mem.setWord addr value).word addr = value := by
  unfold Mem.word Mem.setWord
  rw [Mem.load64_store64_same, wrap64_of_lt value.isLt, BitVec.ofNat_toNat, BitVec.setWidth_eq]

/-- Two different words at multiples of 8 do not overlap. -/
theorem Mem.word_setWord_of_ne (aligned : addr.toNat % 8 = 0) (aligned' : other.toNat % 8 = 0)
    (different : addr ≠ other) : (mem.setWord addr value).word other = mem.word other := by
  have apart : addr.toNat ≠ other.toNat := fun same => different (BitVec.eq_of_toNat_eq same)
  unfold Mem.word Mem.setWord
  rw [Mem.load64_store64_disjoint (by omega)]

theorem Mem.word_congr {mem' : Mem} (same : ∀ place, addr.toNat ≤ place →
    place < addr.toNat + 8 → mem' place = mem place) : mem'.word addr = mem.word addr := by
  unfold Mem.word
  rw [Mem.load64_congr same]

end Words

/-! ## Registers -/

namespace Cpu

section Registers

variable (c : Cpu) (dst : Reg) (value target returnAddr : BitVec 64)

@[simp] theorem setReg_self : (c.setReg dst value).regs dst = value := Function.update_self _ _ _

theorem setReg_of_ne {r : Reg} (different : r ≠ dst) : (c.setReg dst value).regs r = c.regs r :=
  Function.update_of_ne different _ _

@[simp] theorem setReg_mem : (c.setReg dst value).mem = c.mem := rfl
@[simp] theorem setReg_rip : (c.setReg dst value).rip = c.rip := rfl

@[simp] theorem push_rsp : (c.push value).rsp = c.rsp - 8 := c.setReg_self .rsp _

theorem push_regs {r : Reg} (different : r ≠ .rsp) : (c.push value).regs r = c.regs r :=
  Function.update_of_ne different _ _

@[simp] theorem push_mem : (c.push value).mem = c.mem.setWord (c.rsp - 8) value := rfl
@[simp] theorem push_rip : (c.push value).rip = c.rip := rfl

@[simp] theorem pop_self : (c.pop dst).regs dst = c.mem.word c.rsp := Function.update_self _ _ _

theorem pop_rsp (different : dst ≠ .rsp) : (c.pop dst).rsp = c.rsp + 8 := by
  unfold pop rsp
  rw [setReg_of_ne _ _ _ different.symm, setReg_self]

theorem pop_regs {r : Reg} (different : r ≠ dst) (notRsp : r ≠ .rsp) :
    (c.pop dst).regs r = c.regs r := by
  unfold pop
  rw [setReg_of_ne _ _ _ different, setReg_of_ne _ _ _ notRsp]

@[simp] theorem pop_mem : (c.pop dst).mem = c.mem := rfl
@[simp] theorem pop_rip : (c.pop dst).rip = c.rip := rfl

@[simp] theorem ret_rsp : c.ret.rsp = c.rsp + 8 := c.setReg_self .rsp _
@[simp] theorem ret_rip : c.ret.rip = c.mem.word c.rsp := rfl
@[simp] theorem ret_mem : c.ret.mem = c.mem := rfl

theorem ret_regs {r : Reg} (different : r ≠ .rsp) : c.ret.regs r = c.regs r :=
  Function.update_of_ne different _ _

@[simp] theorem call_rsp : (c.call target returnAddr).rsp = c.rsp - 8 :=
  c.setReg_self .rsp _

@[simp] theorem call_rip : (c.call target returnAddr).rip = target := rfl

@[simp] theorem call_mem :
    (c.call target returnAddr).mem = c.mem.setWord (c.rsp - 8) returnAddr := rfl

theorem call_regs {r : Reg} (different : r ≠ .rsp) :
    (c.call target returnAddr).regs r = c.regs r := Function.update_of_ne different _ _

theorem run_append (front back : List Instr) (c : Cpu) :
    run (front ++ back) c = run back (run front c) := by
  induction front generalizing c with
  | nil => rfl
  | cons instr rest inductionHypothesis => exact inductionHypothesis _

end Registers

end Cpu

/-! ## The stack -/

/-- The words from an address on. -/
def Stacked (mem : Mem) : BitVec 64 → List (BitVec 64) → Prop
  | _, [] => True
  | addr, word :: rest => mem.word addr = word ∧ Stacked mem (addr + 8) rest

section Stack

variable {mem mem' : Mem} {addr value : BitVec 64} {words front : List (BitVec 64)} {c : Cpu}

theorem Stacked.head {word : BitVec 64} (stack : Stacked mem addr (word :: words)) :
    mem.word addr = word := stack.1

theorem Stacked.tail {word : BitVec 64} (stack : Stacked mem addr (word :: words)) :
    Stacked mem (addr + 8) words := stack.2

/-- The word number `index` lies 8 times as far behind the first. -/
theorem Stacked.get (stack : Stacked mem addr words) {index : Nat} (bound : index < words.length) :
    mem.word (addr + BitVec.ofNat 64 (8 * index)) = words[index] := by
  induction words generalizing addr index with
  | nil => exact absurd bound (Nat.not_lt_zero _)
  | cons word rest inductionHypothesis =>
      cases index with
      | zero =>
          rw [Nat.mul_zero, List.getElem_cons_zero]
          exact (congrArg mem.word (BitVec.add_zero addr)).trans stack.head
      | succ index =>
          have later := inductionHypothesis stack.tail (Nat.lt_of_succ_lt_succ bound)
          have place : addr + BitVec.ofNat 64 (8 * (index + 1)) =
              addr + 8 + BitVec.ofNat 64 (8 * index) := by
            rw [Nat.mul_add, Nat.add_comm, BitVec.ofNat_add, BitVec.add_assoc]
            rfl
          rw [place, later, List.getElem_cons_succ]

/-- A list of words is stacked if each is in its place. -/
theorem stacked_of_get (same : ∀ index, ∀ bound : index < words.length,
    mem.word (addr + BitVec.ofNat 64 (8 * index)) = words[index]) : Stacked mem addr words := by
  induction words generalizing addr with
  | nil => trivial
  | cons word rest inductionHypothesis =>
      refine ⟨?_, inductionHypothesis fun index bound => ?_⟩
      · have first := same 0 (Nat.succ_pos _)
        rw [Nat.mul_zero] at first
        exact (congrArg mem.word (BitVec.add_zero addr)).symm.trans first
      · have later := same (index + 1) (Nat.succ_lt_succ bound)
        rw [List.getElem_cons_succ] at later
        rw [← later, Nat.mul_add, Nat.add_comm (8 * index), BitVec.ofNat_add, BitVec.add_assoc]
        rfl

theorem Stacked.append (stack : Stacked mem addr front)
    (rest : Stacked mem (addr + BitVec.ofNat 64 (8 * front.length)) words) :
    Stacked mem addr (front ++ words) := by
  induction front generalizing addr with
  | nil =>
      have start : addr + BitVec.ofNat 64 (8 * ([] : List (BitVec 64)).length) = addr :=
        BitVec.add_zero addr
      rw [start] at rest
      exact rest
  | cons word tail inductionHypothesis =>
      refine ⟨stack.1, inductionHypothesis stack.2 ?_⟩
      have place : addr + BitVec.ofNat 64 (8 * (word :: tail).length) =
          addr + 8 + BitVec.ofNat 64 (8 * tail.length) := by
        rw [List.length_cons, Nat.mul_add, Nat.add_comm, BitVec.ofNat_add, BitVec.add_assoc]
        rfl
      rw [← place]
      exact rest

theorem Stacked.left (stack : Stacked mem addr (front ++ words)) : Stacked mem addr front := by
  induction front generalizing addr with
  | nil => trivial
  | cons word rest inductionHypothesis => exact ⟨stack.1, inductionHypothesis stack.2⟩

/-- The words on a stack depend on their own bytes. -/
theorem Stacked.congr (stack : Stacked mem addr words)
    (room : addr.toNat + 8 * words.length ≤ 2 ^ 64)
    (same : ∀ place, addr.toNat ≤ place → place < addr.toNat + 8 * words.length →
      mem' place = mem place) : Stacked mem' addr words := by
  refine stacked_of_get fun index bound => ?_
  have place : (addr + BitVec.ofNat 64 (8 * index)).toNat = addr.toNat + 8 * index := by
    rw [BitVec.toNat_add, BitVec.toNat_ofNat, Nat.mod_eq_of_lt (by omega : 8 * index < 2 ^ 64)]
    exact Nat.mod_eq_of_lt (by omega)
  rw [← stack.get bound]
  exact Mem.word_congr fun byte low high => same byte (by omega) (by omega)

/-- The address of a word is a multiple of 8. -/
theorem aligned_word (aligned : addr.toNat % 8 = 0) (index : Nat) :
    (addr + BitVec.ofNat 64 (8 * index)).toNat % 8 = 0 := by
  rw [BitVec.toNat_add, BitVec.toNat_ofNat]
  omega

theorem aligned_push (aligned : addr.toNat % 8 = 0) : (addr - 8).toNat % 8 = 0 := by
  bv_omega

/-- A new word below the stack leaves it as it is. -/
theorem Stacked.setWord_below (stack : Stacked mem addr words) (aligned : addr.toNat % 8 = 0)
    (short : 8 * (words.length + 1) ≤ 2 ^ 64) :
    Stacked (mem.setWord (addr - 8) value) addr words := by
  refine stacked_of_get fun index bound => ?_
  rw [Mem.word_setWord_of_ne (aligned_push aligned) (aligned_word aligned index)]
  · exact stack.get bound
  · intro same
    have places := congrArg BitVec.toNat same
    rw [BitVec.toNat_add, BitVec.toNat_ofNat, Nat.mod_eq_of_lt (by omega : 8 * index < 2 ^ 64)]
      at places
    have below : (addr - 8).toNat = (addr.toNat + (2 ^ 64 - 8)) % 2 ^ 64 := by
      bv_omega
    omega

/-- A new word on top of the stack. -/
theorem Stacked.push (stack : Stacked mem addr words) (aligned : addr.toNat % 8 = 0)
    (short : 8 * (words.length + 1) ≤ 2 ^ 64) :
    Stacked (mem.setWord (addr - 8) value) (addr - 8) (value :: words) := by
  refine ⟨Mem.word_setWord_same _ _ _, ?_⟩
  have back : addr - 8 + 8 = addr := BitVec.sub_add_cancel _ _
  rw [back]
  exact stack.setWord_below aligned short

theorem Cpu.push_stacked (stack : Stacked c.mem c.rsp words) (aligned : c.rsp.toNat % 8 = 0)
    (short : 8 * (words.length + 1) ≤ 2 ^ 64) (value : BitVec 64) :
    Stacked (c.push value).mem (c.push value).rsp (value :: words) := by
  rw [Cpu.push_rsp, Cpu.push_mem]
  exact stack.push aligned short

end Stack

/-! ## Saving and restoring registers -/

namespace Cpu

/-- What a list of pushes does. -/
structure Pushed (c c' : Cpu) (saved : List Reg) (words : List (BitVec 64)) : Prop where
  stack : Stacked c'.mem c'.rsp (saved.reverse.map c.regs ++ words)
  rsp_eq : c'.rsp = c.rsp - BitVec.ofNat 64 (8 * saved.length)
  regs_eq : ∀ r, r ≠ .rsp → c'.regs r = c.regs r
  rip_eq : c'.rip = c.rip
  aligned : c'.rsp.toNat % 8 = 0

/-- Registers are pushed one after another. -/
theorem run_pushes {saved : List Reg} (notRsp : .rsp ∉ saved) {c : Cpu}
    {words : List (BitVec 64)} (stack : Stacked c.mem c.rsp words) (aligned : c.rsp.toNat % 8 = 0)
    (short : 8 * (saved.length + words.length) ≤ 2 ^ 64) :
    Pushed c (run (saved.map .pushReg) c) saved words := by
  induction saved generalizing c words with
  | nil => exact ⟨stack, (BitVec.sub_zero _).symm, fun _ _ => rfl, rfl, aligned⟩
  | cons r rest inductionHypothesis =>
      rw [List.mem_cons, not_or] at notRsp
      rw [List.length_cons] at short
      have pushed := push_stacked stack aligned (by omega) (c.regs r)
      rcases @inductionHypothesis notRsp.2 (c.push (c.regs r)) _ pushed
        (by rw [push_rsp]; exact aligned_push aligned) (by rw [List.length_cons]; omega) with
        ⟨stack', rsp', regs', rip', aligned'⟩
      have sameRegs : rest.reverse.map (c.push (c.regs r)).regs = rest.reverse.map c.regs := by
        refine List.map_congr_left fun q member => push_regs _ _ ?_
        rintro rfl
        exact notRsp.2 (List.mem_reverse.mp member)
      refine ⟨?_, ?_, fun q different => ?_, rip', aligned'⟩
      · rw [sameRegs] at stack'
        rw [List.reverse_cons, List.map_append, List.append_assoc]
        exact stack'
      · have moved : c.rsp - 8 - BitVec.ofNat 64 (8 * rest.length) =
            c.rsp - BitVec.ofNat 64 (8 * (rest.length + 1)) := by
          rw [Nat.mul_add, BitVec.ofNat_add]
          bv_omega
        rw [push_rsp, moved] at rsp'
        exact rsp'
      · exact (regs' q different).trans (push_regs _ _ different)

/-- Pushes that do not wrap write below the stack pointer only. -/
theorem run_pushes_mem {saved : List Reg} {c : Cpu} (room : 8 * saved.length ≤ c.rsp.toNat)
    {place : Nat} (outside : place < c.rsp.toNat - 8 * saved.length ∨ c.rsp.toNat ≤ place) :
    (run (saved.map .pushReg) c).mem place = c.mem place := by
  induction saved generalizing c with
  | nil => rfl
  | cons r rest inductionHypothesis =>
      rw [List.length_cons] at room outside
      have lower : (c.push (c.regs r)).rsp.toNat = c.rsp.toNat - 8 := by
        rw [push_rsp]
        bv_omega
      refine (inductionHypothesis (c := c.push (c.regs r)) (by omega) (by omega)).trans ?_
      have below : (c.rsp - 8).toNat = c.rsp.toNat - 8 := by
        bv_omega
      rw [push_mem]
      unfold Mem.setWord
      exact Mem.store64_apply_of_outside (by omega)

/-- What a list of pops does. -/
structure Popped (c c' : Cpu) (restored : List Reg) (value : Reg → BitVec 64)
    (words : List (BitVec 64)) : Prop where
  stack : Stacked c'.mem c'.rsp words
  rsp_eq : c'.rsp = c.rsp + BitVec.ofNat 64 (8 * restored.length)
  restored_eq : ∀ r ∈ restored, c'.regs r = value r
  regs_eq : ∀ r, r ∉ restored → r ≠ .rsp → c'.regs r = c.regs r
  rip_eq : c'.rip = c.rip
  mem_eq : c'.mem = c.mem

/-- Registers are popped one after another. -/
theorem run_pops {restored : List Reg} (notRsp : .rsp ∉ restored) (nodup : restored.Nodup)
    {value : Reg → BitVec 64} {c : Cpu} {words : List (BitVec 64)}
    (stack : Stacked c.mem c.rsp (restored.map value ++ words)) :
    Popped c (run (restored.map .popReg) c) restored value words := by
  induction restored generalizing c with
  | nil => exact ⟨stack, (BitVec.add_zero _).symm, by simp, fun _ _ _ => rfl, rfl, rfl⟩
  | cons r rest inductionHypothesis =>
      rw [List.mem_cons, not_or] at notRsp
      rw [List.nodup_cons] at nodup
      have rspEq := c.pop_rsp r (Ne.symm notRsp.1)
      have stackTail : Stacked (c.pop r).mem (c.pop r).rsp (rest.map value ++ words) := by
        rw [rspEq]
        exact stack.tail
      rcases inductionHypothesis notRsp.2 nodup.2 stackTail with
        ⟨stack', rsp', restored', regs', rip', mem'⟩
      refine ⟨stack', ?_, ?_, fun q notIn different => ?_, rip', mem'⟩
      · have moved : c.rsp + 8 + BitVec.ofNat 64 (8 * rest.length) =
            c.rsp + BitVec.ofNat 64 (8 * (rest.length + 1)) := by
          rw [Nat.mul_add, BitVec.ofNat_add]
          bv_omega
        rw [rspEq, moved] at rsp'
        exact rsp'
      · intro q member
        rcases List.mem_cons.mp member with rfl | later
        · have kept := regs' q nodup.1 (Ne.symm notRsp.1)
          exact (kept.trans (c.pop_self q)).trans stack.head
        · exact restored' q later
      · rw [List.mem_cons, not_or] at notIn
        exact (regs' q notIn.2 different).trans (c.pop_regs r notIn.1 different)

end Cpu

end Machine
end AuraKernel
