import AuraKernel.Machine.Cpu

namespace AuraKernel
namespace Interrupts

open Machine

/-!
# The interrupt stubs

`kernel/arch/x86_shared/isr.S` has a stub for each vector, which completes the
frame that the processor has pushed, and two common stubs, which save the
registers around the call of a C handler.  The frame is a `struct registers`.
-/

/-! ## The processor -/

structure Interrupted where
  regs : Reg → BitVec 64
  rip : BitVec 64
  cs : BitVec 64
  rflags : BitVec 64
  ss : BitVec 64
  mem : Mem

/-- The exceptions with an error code: #DF, #TS, #NP, #SS, #GP, #PF, #AC, #CP, #VC and #SX. -/
def hasErrorCode (vector : Nat) : Bool := vector ∈ [8, 10, 11, 12, 13, 14, 17, 21, 29, 30]

/-- The stack pointer, aligned down to 16. -/
def Interrupted.alignedRsp (i : Interrupted) : BitVec 64 := i.regs .rsp &&& ~~~15

/-- The address at which the processor pushes `rip`. -/
def Interrupted.ripAddr (i : Interrupted) : BitVec 64 := i.alignedRsp - 40

/-- What the processor does before the first instruction of a stub. -/
def deliver (vector : Nat) (errorCode : BitVec 64) (i : Interrupted) : Cpu :=
  let c : Cpu := { regs := Function.update i.regs .rsp i.alignedRsp, rip := i.rip, mem := i.mem }
  let c := c.push i.ss
  let c := c.push (i.regs .rsp)
  let c := c.push i.rflags
  let c := c.push i.cs
  let c := c.push i.rip
  if hasErrorCode vector then c.push errorCode else c

/-! ## The stubs -/

def isrNoErrCode (num : Nat) : List Instr := [.pushImm 0, .pushImm (BitVec.ofNat 64 num)]

def isrErrCode (num : Nat) : List Instr := [.pushImm (BitVec.ofNat 64 num)]

/-- The body of `IRQ_STUB` for a vector. -/
def irqStub (irq : Nat) : List Instr := [.pushImm 0, .pushImm (BitVec.ofNat 64 irq)]

/-- The exceptions whose stub is an `ISR_ERRCODE`. -/
def errCodeStubs : List Nat := [8, 10, 11, 12, 13, 14, 17]

/-- The entry points of `isr.S`. -/
inductive Stub where
  | isr (num : Nat)
  | irq (num : Nat)
deriving DecidableEq, Repr

/-- The instructions of a stub in front of the jump to its common stub. -/
def Stub.entry : Stub → List Instr
  | isr num => if num ∈ errCodeStubs then isrErrCode num else isrNoErrCode num
  | irq num => irqStub (32 + num)

/-- The gates that `isr_install` sets: the exceptions and then the 16 IRQs. -/
def gate (vector : Nat) : Stub := if vector < 32 then .isr vector else .irq (vector - 32)

/-- The registers in the order in which the common stubs push them. -/
def savedRegs : List Reg :=
  [.rax, .rbx, .rcx, .rdx, .rsi, .rdi, .rbp, .r8, .r9, .r10, .r11, .r12, .r13, .r14, .r15]

/-- `isr_common_stub` and `irq_common_stub` up to the call, which are the same. -/
def commonEntry : List Instr := savedRegs.map .pushReg ++ [.mov .rsp .rdi]

/-- `isr_common_stub` and `irq_common_stub` from the call to `iretq`. -/
def commonExit : List Instr := savedRegs.reverse.map .popReg ++ [.addImm 16 .rsp]

/-! ## The frame -/

/-- The members of `struct registers`. -/
inductive Field where
  | r15 | r14 | r13 | r12 | r11 | r10 | r9 | r8
  | rbp | rdi | rsi | rdx | rcx | rbx | rax
  | intNo | errCode
  | rip | cs | rflags | rsp | ss
deriving DecidableEq, Repr

/-- `struct registers`, which is packed and consists of words only. -/
def registers : List Field :=
  [.r15, .r14, .r13, .r12, .r11, .r10, .r9, .r8, .rbp, .rdi, .rsi, .rdx, .rcx, .rbx, .rax,
    .intNo, .errCode, .rip, .cs, .rflags, .rsp, .ss]

def Field.get (mem : Mem) (regs : BitVec 64) (field : Field) : BitVec 64 :=
  mem.word (regs + BitVec.ofNat 64 (8 * registers.idxOf field))

/-- The member that has the name of a register. -/
def fieldOf : Reg → Field
  | .rax => .rax
  | .rbx => .rbx
  | .rcx => .rcx
  | .rdx => .rdx
  | .rsi => .rsi
  | .rdi => .rdi
  | .rbp => .rbp
  | .rsp => .rsp
  | .r8 => .r8
  | .r9 => .r9
  | .r10 => .r10
  | .r11 => .r11
  | .r12 => .r12
  | .r13 => .r13
  | .r14 => .r14
  | .r15 => .r15

/-! ## A whole interrupt -/

/-- The C handler of a stub, with its address and the address behind the call. -/
structure Handler where
  addr : BitVec 64
  returnAddr : BitVec 64
  body : Cpu → Cpu

/-- The state at the call of the handler. -/
def atCall (vector : Nat) (errorCode : BitVec 64) (i : Interrupted) : Cpu :=
  Cpu.run commonEntry (Cpu.run (gate vector).entry (deliver vector errorCode i))

/-- The state at the first instruction of the handler. -/
def atHandler (handler : Handler) (vector : Nat) (errorCode : BitVec 64) (i : Interrupted) : Cpu :=
  (atCall vector errorCode i).call handler.addr handler.returnAddr

def atIret (handler : Handler) (vector : Nat) (errorCode : BitVec 64) (i : Interrupted) : Cpu :=
  Cpu.run commonExit (handler.body (atHandler handler vector errorCode i))

/-- The handler returns from the state `c` without modifying the frame that it was passed. -/
structure Handler.Returns (handler : Handler) (c : Cpu) : Prop where
  rip_eq : (handler.body c).rip = c.mem.word c.rsp
  rsp_eq : (handler.body c).rsp = c.rsp + 8
  frame_eq : ∀ field : Field, field.get (handler.body c).mem (c.regs .rdi) =
    field.get c.mem (c.regs .rdi)

/-- An interrupt is transparent: the handler sees the interrupted state in its
frame, on an aligned stack, and `iretq` finds the registers and the frame of the
processor again. -/
structure Transparent (handler : Handler) (vector : Nat) (errorCode : BitVec 64)
    (i : Interrupted) : Prop where
  regs_read : ∀ r, (fieldOf r).get (atHandler handler vector errorCode i).mem
    ((atHandler handler vector errorCode i).regs .rdi) = i.regs r
  intNo_read : Field.intNo.get (atHandler handler vector errorCode i).mem
    ((atHandler handler vector errorCode i).regs .rdi) = BitVec.ofNat 64 vector
  rip_read : Field.rip.get (atHandler handler vector errorCode i).mem
    ((atHandler handler vector errorCode i).regs .rdi) = i.rip
  cs_read : Field.cs.get (atHandler handler vector errorCode i).mem
    ((atHandler handler vector errorCode i).regs .rdi) = i.cs
  rflags_read : Field.rflags.get (atHandler handler vector errorCode i).mem
    ((atHandler handler vector errorCode i).regs .rdi) = i.rflags
  ss_read : Field.ss.get (atHandler handler vector errorCode i).mem
    ((atHandler handler vector errorCode i).regs .rdi) = i.ss
  aligned : (atCall vector errorCode i).rsp.toNat % 16 = 0
  resumed : (handler.body (atHandler handler vector errorCode i)).rip = handler.returnAddr
  restored : ∀ r, r ≠ .rsp → (atIret handler vector errorCode i).regs r = i.regs r
  rsp_restored : (atIret handler vector errorCode i).rsp = i.ripAddr

end Interrupts
end AuraKernel
