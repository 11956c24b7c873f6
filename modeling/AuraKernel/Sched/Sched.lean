import AuraKernel.Machine.Memory
import Mathlib.Data.Fin.Basic
import Mathlib.Logic.Function.Basic

namespace AuraKernel
namespace Sched

open Machine

/-!
# The scheduler

`kernel/core/sched.c` keeps a table of eight tasks.  The saved stack pointers
and the stacks are accessed by the assembly of the context switch, so they are
in the memory, at their offsets in `struct task_struct`; the other fields of a
task are a record.
-/

def taskMax : Nat := 8

def kstackSize : Nat := 4096

inductive TaskState where
  | ready
  | running
  | blocked
deriving DecidableEq, Repr

/-- `struct task_struct` without `rsp` and `kstack`; the name is the string in the array. -/
structure Task where
  pid : Nat
  name : List UInt8
  state : TaskState
  ticks : Nat
deriving DecidableEq, Repr

/-- The addresses of the table of tasks and of the trampoline. -/
structure Image where
  tasks : Nat
  taskTrampoline : Nat

/-- The static variables of `sched.c` and the memory. -/
structure SchedState where
  tasks : Fin 8 → Task
  curTask : Fin 8
  taskCount : Nat
  mem : Mem

/-! ## Layout -/

def taskStructSize : Nat := 4160

/-- `&tasks[i]`, which is also the address of its `rsp`. -/
def taskAddr (image : Image) (i : Fin 8) : Nat := image.tasks + i * taskStructSize

def kstack (image : Image) (i : Fin 8) : Nat := taskAddr image i + 64

namespace SchedState

def setTask (s : SchedState) (i : Fin 8) (task : Task) : SchedState :=
  { s with tasks := Function.update s.tasks i task }

section Fields

variable (s : SchedState) (i : Fin 8) (task : Task)

@[simp] theorem setTask_curTask : (s.setTask i task).curTask = s.curTask := rfl
@[simp] theorem setTask_taskCount : (s.setTask i task).taskCount = s.taskCount := rfl
@[simp] theorem setTask_mem : (s.setTask i task).mem = s.mem := rfl

@[simp] theorem setTask_self : (s.setTask i task).tasks i = task := by
  simp only [setTask, Function.update_self]

theorem setTask_of_ne {j : Fin 8} (different : j ≠ i) : (s.setTask i task).tasks j = s.tasks j := by
  simp only [setTask, Function.update_of_ne different]

end Fields

end SchedState

/-! ## The functions -/

/-- The characters of "idle". -/
def bootName : List UInt8 := [105, 100, 108, 101]

/-- The first loop of `sched_init` on the saved stack pointers. -/
def clearStackPointers (image : Image) (mem : Mem) : Nat → Mem
  | 0 => mem
  | count + 1 =>
      (clearStackPointers image mem count).store64 (image.tasks + count * taskStructSize) 0

def schedInit (image : Image) (mem : Mem) : SchedState where
  tasks := fun i =>
    if i = 0 then { pid := 0, name := bootName, state := .running, ticks := 0 }
    else { pid := i, name := [], state := .blocked, ticks := 0 }
  curTask := 0
  taskCount := 1
  mem := clearStackPointers image mem taskMax

/-- The slot of the task that calls `sched_init`. -/
abbrev bootTask : Fin 8 := 0

/-- The loop that copies a name: at most 31 characters, up to the first NUL.  An
empty name leaves the old one. -/
def copyName (name old : List UInt8) : List UInt8 :=
  if name.head? = none ∨ name.head? = some 0 then old
  else (name.takeWhile (· ≠ 0)).take 31

/-- The initial stack of a task, from the top down: `entry`, the trampoline and
zeros for `rbx`, `rbp` and `r12` to `r15`.  The result is the stack pointer and
the memory. -/
def buildStack (taskTrampoline entry top : Nat) (mem : Mem) : Nat × Mem :=
  let sp := top &&& (2 ^ 64 - 1 - 15)
  let mem := mem.store64 (sp - 8) entry
  let mem := mem.store64 (sp - 16) taskTrampoline
  let mem := mem.store64 (sp - 24) 0
  let mem := mem.store64 (sp - 32) 0
  let mem := mem.store64 (sp - 40) 0
  let mem := mem.store64 (sp - 48) 0
  let mem := mem.store64 (sp - 56) 0
  let mem := mem.store64 (sp - 64) 0
  (sp - 64, mem)

/-- `sched_create_task`; `none` is a NULL name, and 0 a NULL entry. -/
def schedCreateTask (image : Image) (name : Option (List UInt8)) (entry : Nat) (s : SchedState) :
    Int × SchedState :=
  match name with
  | none => (-1, s)
  | some name =>
      if entry = 0 then (-1, s)
      else if room : s.taskCount < 8 then
        let idx : Fin 8 := ⟨s.taskCount, room⟩
        let (sp, mem) := buildStack image.taskTrampoline entry (kstack image idx + kstackSize) s.mem
        let created := s.setTask idx
          { pid := idx, name := copyName name (s.tasks idx).name, state := .ready, ticks := 0 }
        (idx, { created with
          taskCount := s.taskCount + 1
          mem := mem.store64 (taskAddr image idx) sp })
      else (-1, s)

def candidate (prev : Fin 8) (i : Nat) : Fin 8 := ⟨(prev + i) % 8, Nat.mod_lt _ (by decide)⟩

/-- The scan for a ready task over `remaining` candidates from the `i`-th on. -/
def findReady (tasks : Fin 8 → Task) (prev : Fin 8) : Nat → Nat → Option (Fin 8)
  | 0, _ => none
  | remaining + 1, i =>
      if (tasks (candidate prev i)).state = .ready then some (candidate prev i)
      else findReady tasks prev remaining (i + 1)

/-- `sched_yield` up to the call of `switch_to`, with the task that is switched to, if any. -/
def schedYield (s : SchedState) : Option (Fin 8) × SchedState :=
  let prev := s.curTask
  match findReady s.tasks prev taskMax 1 with
  | none => (none, s)
  | some next =>
      let old := s.tasks prev
      let s := if old.state = .running then s.setTask prev { old with state := .ready } else s
      let s := s.setTask next { s.tasks next with state := .running }
      let s := s.setTask prev { s.tasks prev with ticks := wrap64 ((s.tasks prev).ticks + 1) }
      (some next, { s with curTask := next })

end Sched
end AuraKernel
