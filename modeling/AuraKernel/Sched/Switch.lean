import AuraKernel.Machine.Cpu
import AuraKernel.Sched.Sched

namespace AuraKernel
namespace Sched

open Machine

/-!
# Context switches

`switch_to` and `task_trampoline` are lists of instructions.  What the compiler
makes of `sched_yield` around the call of `switch_to` is not part of the
sources: it is a parameter, of which only the calling convention is known.
-/

/-! ## The assembly -/

/-- The registers that `switch_to` saves, in the order of the pushes. -/
def calleeSaved : List Reg := [.rbx, .rbp, .r12, .r13, .r14, .r15]

/-- `switch_to` up to the load of the next stack pointer. -/
def saveContext : List Instr := calleeSaved.map .pushReg ++ [.store .rsp .rdi]

/-- `switch_to` from the load of the next stack pointer to `ret`. -/
def restoreContext : List Instr := .load .rsi .rsp :: calleeSaved.reverse.map .popReg

def switchTo (c : Cpu) : Cpu := (Cpu.run restoreContext (Cpu.run saveContext c)).ret

/-- `task_trampoline` up to the first instruction of the entry function. -/
def taskTrampoline (park : BitVec 64) (c : Cpu) : Cpu :=
  let c := c.pop .rdi
  c.call (c.regs .rdi) park

/-! ## The compiled `sched_yield` -/

/-- The code of `sched_yield` in front of `switch_to` and behind it, and its code
when there is nothing to switch to.  It uses at most `frame` bytes of stack. -/
structure YieldCode where
  frame : Nat
  enter : BitVec 64 → BitVec 64 → Cpu → Cpu
  leave : Cpu → Cpu
  idle : Cpu → Cpu

/-- `c` is at the first instruction of a function that uses at most `frame` bytes of stack. -/
structure Called (frame : Nat) (trampoline : BitVec 64) (c : Cpu) : Prop where
  aligned : c.rsp.toNat % 16 = 8
  room : frame ≤ c.rsp.toNat
  returnAddr : c.mem.word c.rsp ≠ trampoline

/-- A function called in state `c` changes the static variables `vars` and `frame` bytes
below the return address only. -/
def Modifies (frame : Nat) (vars : Set Nat) (c : Cpu) (before after : Mem) : Prop :=
  ∀ place, place ∉ vars → (place < c.rsp.toNat - frame ∨ c.rsp.toNat ≤ place) →
    after place = before place

/-- The call of a function in state `c` has returned in state `d`. -/
structure Returns (c d : Cpu) (mem : Mem) : Prop where
  rsp_eq : d.rsp = c.rsp + 8
  rip_eq : d.rip = mem.word c.rsp
  saved_eq : ∀ r ∈ calleeSaved, d.regs r = c.regs r

/-- `c` has called `switch_to(prev, next)` in state `d`. -/
structure Enters (frame : Nat) (trampoline prev next : BitVec 64) (c d : Cpu) : Prop where
  prev_eq : d.regs .rdi = prev
  next_eq : d.regs .rsi = next
  aligned : d.rsp.toNat % 8 = 0
  low : c.rsp.toNat - frame ≤ d.rsp.toNat
  high : d.rsp.toNat ≤ c.rsp.toNat
  returnAddr : d.mem.word d.rsp ≠ trampoline

/-- `switch_to` was called in state `d` and has returned in state `e`; the stack of the
caller up to `high` is as it was. -/
structure Resumed (d e : Cpu) (high : Nat) : Prop where
  rsp_eq : e.rsp = d.rsp + 8
  rip_eq : e.rip = d.mem.word d.rsp
  saved_eq : ∀ r ∈ calleeSaved, e.regs r = d.regs r
  stack_eq : ∀ place, d.rsp.toNat ≤ place → place < high → e.mem place = d.mem place

/-- `sched_yield` is compiled for the calling convention: it calls `switch_to` with the
two addresses, and when it finds its frame and the saved registers again it
returns. -/
structure YieldCode.Abi (code : YieldCode) (trampoline : BitVec 64) (vars : Set Nat) : Prop where
  enter : ∀ prev next c, Called code.frame trampoline c →
    Enters code.frame trampoline prev next c (code.enter prev next c) ∧
      Modifies code.frame vars c c.mem (code.enter prev next c).mem
  leave : ∀ prev next c e, Called code.frame trampoline c →
    Resumed (code.enter prev next c) e (c.rsp.toNat + 8) →
      Returns c (code.leave e) e.mem ∧ Modifies code.frame vars c e.mem (code.leave e).mem
  idle : ∀ c, Called code.frame trampoline c →
    Returns c (code.idle c) c.mem ∧ Modifies code.frame vars c c.mem (code.idle c).mem

/-! ## The program -/

/-- The kernel: the scheduler, the address behind the call in `task_trampoline`, the
stack of the boot task, the other static variables, and the compiled `sched_yield`. -/
structure Program where
  image : Image
  park : BitVec 64
  bootLow : Nat
  bootHigh : Nat
  vars : Set Nat
  code : YieldCode

namespace Program

variable (p : Program)

def trampoline : BitVec 64 := BitVec.ofNat 64 p.image.taskTrampoline

/-- The lowest address of the stack of a task; the boot task does not use its `kstack`. -/
def stackLow (i : Fin 8) : Nat := if i = bootTask then p.bootLow else kstack p.image i

/-- The address behind the stack of a task. -/
def stackHigh (i : Fin 8) : Nat :=
  if i = bootTask then p.bootHigh else kstack p.image i + kstackSize

/-- The stack and the saved stack pointer of a task. -/
def Owns (i : Fin 8) (place : Nat) : Prop :=
  p.stackLow i ≤ place ∧ place < p.stackHigh i ∨
    taskAddr p.image i ≤ place ∧ place < taskAddr p.image i + 8

/-- The table of tasks is aligned and inside the address space, and the boot stack
and the other variables are elsewhere. -/
structure Placed : Prop where
  aligned : p.image.tasks % 16 = 0
  inside : p.image.tasks + taskMax * taskStructSize < 2 ^ 64
  trampoline_lt : p.image.taskTrampoline < 2 ^ 64
  boot_apart : p.bootHigh ≤ p.image.tasks ∨
    p.image.tasks + taskMax * taskStructSize ≤ p.bootLow
  vars_apart : ∀ i place, p.Owns i place → place ∉ p.vars

/-- Task `i` calls `sched_yield` in state `c`, with room for it on its stack. -/
structure CallsYield (i : Fin 8) (c : Cpu) : Prop where
  called : Called p.code.frame p.trampoline c
  low : p.stackLow i + p.code.frame + 48 ≤ c.rsp.toNat
  high : c.rsp.toNat + 8 ≤ p.stackHigh i

/-- The switch from task `prev` to task `next` in `sched_yield`, until the next
task executes its own code. -/
def switchTasks (prev next : Fin 8) (c : Cpu) : Cpu :=
  let c := switchTo (p.code.enter (BitVec.ofNat 64 (taskAddr p.image prev))
    (BitVec.ofNat 64 (taskAddr p.image next)) c)
  if c.rip = p.trampoline then Sched.taskTrampoline p.park c else p.code.leave c

end Program

/-! ## Executions -/

/-- What a task that does not run is waiting for: its first switch, or the
return of the call of `sched_yield` that it made in some state. -/
inductive Context where
  | fresh (entry : Nat)
  | suspended (c : Cpu)

/-- The scheduler, the processor, and the contexts of the tasks that do not run. -/
structure Execution where
  sched : SchedState
  regs : Reg → BitVec 64
  rip : BitVec 64
  contexts : Fin 8 → Option Context

namespace Execution

/-- The processor with the memory of the scheduler. -/
def cpu (e : Execution) : Cpu := { regs := e.regs, rip := e.rip, mem := e.sched.mem }

/-- The execution after `sched_yield` has returned, in whatever task. -/
def yield (p : Program) (e : Execution) : Execution :=
  match schedYield e.sched with
  | (none, sched) =>
      let c := p.code.idle e.cpu
      { e with sched := { sched with mem := c.mem }, regs := c.regs, rip := c.rip }
  | (some next, sched) =>
      let c := p.switchTasks e.sched.curTask next e.cpu
      { sched := { sched with mem := c.mem }
        regs := c.regs
        rip := c.rip
        contexts := Function.update
          (Function.update e.contexts e.sched.curTask (some (.suspended e.cpu))) next none }

/-- The execution after `sched_create_task` has built the new task. -/
def create (p : Program) (name : Option (List UInt8)) (entry : Nat) (e : Execution) : Execution :=
  let (idx, sched) := schedCreateTask p.image name entry e.sched
  { e with
    sched := sched
    contexts := fun i => if idx = i then some (.fresh entry) else e.contexts i }

/-- The steps of an execution: the running task does something that leaves the
other tasks' stacks and stack pointers alone, creates a task or yields. -/
inductive Step (p : Program) : Execution → Execution → Prop
  | work {e : Execution} (regs : Reg → BitVec 64) (rip : BitVec 64) (mem : Mem)
      (spared : ∀ j, j ≠ e.sched.curTask → j.val < e.sched.taskCount →
        ∀ place, p.Owns j place → mem place = e.sched.mem place) :
      Step p e { e with sched := { e.sched with mem := mem }, regs := regs, rip := rip }
  | create {e : Execution} (name : Option (List UInt8)) (entry : Nat) (bound : entry < 2 ^ 64) :
      Step p e (e.create p name entry)
  | yield {e : Execution} (calls : p.CallsYield e.sched.curTask e.cpu) : Step p e (e.yield p)

/-- The executions that can be reached from `sched_init` in the boot task. -/
inductive Reachable (p : Program) : Execution → Prop
  | init (mem : Mem) (regs : Reg → BitVec 64) (rip : BitVec 64) :
      Reachable p
        { sched := schedInit p.image mem, regs := regs, rip := rip, contexts := fun _ => none }
  | step {e e' : Execution} : Reachable p e → Step p e e' → Reachable p e'

end Execution

end Sched
end AuraKernel
