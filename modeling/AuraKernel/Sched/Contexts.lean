import AuraKernel.Sched.RoundRobin
import AuraKernel.Sched.Switch

namespace AuraKernel
namespace Sched

open Machine

/-!
# Saved contexts

A task that does not run is described by its stack: either the eight words that
`sched_create_task` has built, or the six registers that `switch_to` has pushed
on top of the frame of `sched_yield`.  `switch_to` leaves the second form behind
and consumes both.
-/

/-! ## The two halves of `switch_to` -/

/-- What `switch_to` leaves behind when it is called in state `d`. -/
structure Saved (d f : Cpu) : Prop where
  regs_eq : ∀ r, r ≠ .rsp → f.regs r = d.regs r
  stack : Stacked f.mem (d.rsp - 48) (calleeSaved.reverse.map d.regs)
  pointer : f.mem.word (d.regs .rdi) = d.rsp - 48
  mem_eq : ∀ place, (place < d.rsp.toNat - 48 ∨ d.rsp.toNat ≤ place) →
    (place < (d.regs .rdi).toNat ∨ (d.regs .rdi).toNat + 8 ≤ place) → f.mem place = d.mem place

section Halves

variable {d f : Cpu}

theorem saveContext_spec (aligned : d.rsp.toNat % 8 = 0) (room : 48 ≤ d.rsp.toNat)
    (apart : (d.regs .rdi).toNat + 8 ≤ d.rsp.toNat - 48 ∨ d.rsp.toNat ≤ (d.regs .rdi).toNat) :
    Saved d (Cpu.run saveContext d) := by
  have pushed := @Cpu.run_pushes calleeSaved (by decide) d [] trivial aligned (by decide)
  have six : calleeSaved.length = 6 := rfl
  have rsp : (Cpu.run (calleeSaved.map .pushReg) d).rsp = d.rsp - 48 := pushed.rsp_eq
  have below : (d.rsp - 48).toNat = d.rsp.toNat - 48 := by bv_omega
  have rdi := pushed.regs_eq .rdi (by decide)
  have final : Cpu.run saveContext d =
      { Cpu.run (calleeSaved.map .pushReg) d with
        mem := (Cpu.run (calleeSaved.map .pushReg) d).mem.setWord (d.regs .rdi) (d.rsp - 48) } := by
    unfold saveContext
    rw [Cpu.run_append, ← rdi, ← rsp]
    rfl
  have stack := pushed.stack
  rw [List.append_nil, rsp] at stack
  rw [final]
  refine ⟨fun r different => pushed.regs_eq r different, ?_, Mem.word_setWord_same _ _ _, ?_⟩
  · refine stack.congr ?_ fun place low high => ?_
    · have bound := (d.rsp - 48).isLt
      rw [List.length_map, List.length_reverse, six]
      omega
    · rw [List.length_map, List.length_reverse, six] at high
      unfold Mem.setWord
      exact Mem.store64_apply_of_outside (by omega)
  · intro place outside away
    dsimp only
    unfold Mem.setWord
    rw [Mem.store64_apply_of_outside away]
    exact Cpu.run_pushes_mem (by rw [six]; exact room) (by rw [six]; exact outside)

/-- The second half restores what lies at the pointer that it loads. -/
theorem restoreContext_spec {value : Reg → BitVec 64} {returnAddr target : BitVec 64}
    (pointer : f.mem.word (f.regs .rsi) = target)
    (stack : Stacked f.mem target (calleeSaved.reverse.map value ++ [returnAddr])) :
    (Cpu.run restoreContext f).ret.mem = f.mem ∧
      (Cpu.run restoreContext f).ret.rsp = target + 56 ∧
      (Cpu.run restoreContext f).ret.rip = returnAddr ∧
      ∀ r ∈ calleeSaved, (Cpu.run restoreContext f).ret.regs r = value r := by
  have loaded : (f.setReg .rsp target).rsp = target := f.setReg_self .rsp target
  have start : Cpu.run restoreContext f =
      Cpu.run (calleeSaved.reverse.map .popReg) (f.setReg .rsp target) := by
    rw [← pointer]
    rfl
  have stackAtTarget : Stacked (f.setReg .rsp target).mem (f.setReg .rsp target).rsp
      (calleeSaved.reverse.map value ++ [returnAddr]) := by
    rw [loaded]
    exact stack
  have popped := Cpu.run_pops (by decide : .rsp ∉ calleeSaved.reverse) (by decide) stackAtTarget
  have rsp := popped.rsp_eq
  rw [loaded] at rsp
  rw [start]
  refine ⟨?_, ?_, ?_, ?_⟩
  · rw [Cpu.ret_mem, popped.mem_eq, Cpu.setReg_mem]
  · have six : calleeSaved.reverse.length = 6 := rfl
    rw [Cpu.ret_rsp, rsp, six, BitVec.add_assoc]
    rfl
  · exact popped.stack.head
  · intro r member
    have notRsp : r ≠ .rsp := by
      rintro rfl
      exact absurd member (by decide)
    rw [Cpu.ret_regs _ notRsp]
    exact popped.restored_eq r (List.mem_reverse.mpr member)

end Halves

/-! ## The initial stack -/

/-- The words that `sched_create_task` puts on the stack of a task. -/
def initialWords (trampoline entry : BitVec 64) : List (BitVec 64) :=
  calleeSaved.reverse.map (fun _ => 0) ++ [trampoline, entry]

theorem setWord_ofNat {mem : Mem} {addr value : Nat} (addrLt : addr < 2 ^ 64)
    (valueLt : value < 2 ^ 64) :
    mem.setWord (BitVec.ofNat 64 addr) (BitVec.ofNat 64 value) = mem.store64 addr value := by
  unfold Mem.setWord
  rw [BitVec.toNat_ofNat, BitVec.toNat_ofNat, Nat.mod_eq_of_lt addrLt, Nat.mod_eq_of_lt valueLt]

theorem buildStack_spec {trampoline entry top : Nat} (mem : Mem) (aligned : top % 16 = 0)
    (room : 64 ≤ top) (topLt : top < 2 ^ 64) (trampolineLt : trampoline < 2 ^ 64)
    (entryLt : entry < 2 ^ 64) :
    (buildStack trampoline entry top mem).1 = top - 64 ∧
      Stacked (buildStack trampoline entry top mem).2 (BitVec.ofNat 64 (top - 64))
        (initialWords (BitVec.ofNat 64 trampoline) (BitVec.ofNat 64 entry)) ∧
      ∀ place, (place < top - 64 ∨ top ≤ place) →
        (buildStack trampoline entry top mem).2 place = mem place := by
  have mask : 2 ^ 64 - 1 - 15 = 2 ^ 64 - 2 ^ 4 := by decide
  have same : top &&& (2 ^ 64 - 1 - 15) = top := by
    rw [mask, and_highMask (by decide), Nat.mod_eq_of_lt topLt]
    omega
  unfold buildStack
  dsimp only
  rw [same]
  refine ⟨rfl, ?_, fun place outside => ?_⟩
  · -- one push for each of the eight words, from the top down
    have step : ∀ {mem : Mem} {addr : Nat} {words : List (BitVec 64)} {value : Nat},
        addr % 8 = 0 → addr < 2 ^ 64 → 8 ≤ addr → value < 2 ^ 64 → words.length < 100 →
        Stacked mem (BitVec.ofNat 64 addr) words →
        Stacked (mem.store64 (addr - 8) value) (BitVec.ofNat 64 (addr - 8))
          (BitVec.ofNat 64 value :: words) := by
      intro mem addr words value addrAligned addrLt low valueLt short stack
      have addrNat : (BitVec.ofNat 64 addr).toNat = addr := Nat.mod_eq_of_lt addrLt
      have lower : BitVec.ofNat 64 addr - 8 = BitVec.ofNat 64 (addr - 8) := by
        refine BitVec.eq_of_toNat_eq ?_
        have target : (BitVec.ofNat 64 (addr - 8)).toNat = addr - 8 :=
          Nat.mod_eq_of_lt (by omega)
        rw [target]
        bv_omega
      rw [← setWord_ofNat (by omega) valueLt, ← lower]
      exact stack.push (by rw [addrNat]; exact addrAligned) (by omega)
    have eight : top % 8 = 0 := by omega
    have s1 := @step mem top [] entry eight topLt (by omega) entryLt (by simp) trivial
    have s2 := step (by omega) (by omega) (by omega) trampolineLt (by simp) s1
    have s3 := @step _ _ _ 0 (by omega) (by omega) (by omega) (by decide) (by simp) s2
    have s4 := @step _ _ _ 0 (by omega) (by omega) (by omega) (by decide) (by simp) s3
    have s5 := @step _ _ _ 0 (by omega) (by omega) (by omega) (by decide) (by simp) s4
    have s6 := @step _ _ _ 0 (by omega) (by omega) (by omega) (by decide) (by simp) s5
    have s7 := @step _ _ _ 0 (by omega) (by omega) (by omega) (by decide) (by simp) s6
    have s8 := @step _ _ _ 0 (by omega) (by omega) (by omega) (by decide) (by simp) s7
    exact s8
  · iterate 8 rw [Mem.store64_apply_of_outside (by omega)]

/-! ## Ownership -/

section Ownership

variable {p : Program} {i j : Fin 8} {place : Nat}

/-- No two tasks own the same byte. -/
theorem Program.Placed.owns_apart (placed : p.Placed) (owns : p.Owns i place)
    (owns' : p.Owns j place) : i = j := by
  have iLt := i.isLt
  have jLt := j.isLt
  have boot := placed.boot_apart
  refine Fin.ext ?_
  unfold Program.Owns Program.stackLow Program.stackHigh at owns owns'
  unfold taskMax taskStructSize at boot
  by_cases iBoot : i = 0 <;> by_cases jBoot : j = 0
  · rw [iBoot, jBoot]
  · rw [if_pos iBoot, if_pos iBoot] at owns
    rw [if_neg jBoot, if_neg jBoot] at owns'
    have jNe : j.val ≠ 0 := fun zero => jBoot (Fin.ext zero)
    have iEq : i.val = 0 := congrArg Fin.val iBoot
    unfold kstack taskAddr kstackSize taskStructSize at *
    omega
  · rw [if_neg iBoot, if_neg iBoot] at owns
    rw [if_pos jBoot, if_pos jBoot] at owns'
    have iNe : i.val ≠ 0 := fun zero => iBoot (Fin.ext zero)
    have jEq : j.val = 0 := congrArg Fin.val jBoot
    unfold kstack taskAddr kstackSize taskStructSize at *
    omega
  · rw [if_neg iBoot, if_neg iBoot] at owns
    rw [if_neg jBoot, if_neg jBoot] at owns'
    unfold kstack taskAddr kstackSize taskStructSize at *
    omega

/-- The table of tasks fits the address space. -/
theorem Program.Placed.taskAddr_lt (placed : p.Placed) (i : Fin 8) :
    taskAddr p.image i + taskStructSize < 2 ^ 64 := by
  have iLt := i.isLt
  have inside := placed.inside
  unfold taskAddr
  unfold taskMax taskStructSize at *
  omega

theorem Program.Placed.taskAddr_toNat (placed : p.Placed) (i : Fin 8) :
    (BitVec.ofNat 64 (taskAddr p.image i)).toNat = taskAddr p.image i := by
  have inside := placed.taskAddr_lt i
  exact Nat.mod_eq_of_lt (by omega)

/-- The saved stack pointer of a task is not on its stack. -/
theorem Program.Placed.pointer_apart (placed : p.Placed) (i : Fin 8) :
    taskAddr p.image i + 8 ≤ p.stackLow i ∨ p.stackHigh i ≤ taskAddr p.image i := by
  have iLt := i.isLt
  have boot := placed.boot_apart
  unfold Program.stackLow Program.stackHigh
  unfold taskMax taskStructSize at boot
  by_cases isBoot : i = 0
  · have iEq : i.val = 0 := congrArg Fin.val isBoot
    rw [if_pos isBoot, if_pos isBoot]
    unfold taskAddr taskStructSize
    omega
  · rw [if_neg isBoot]
    unfold kstack
    omega

theorem stackLow_of_pos (p : Program) (notBoot : i ≠ 0) : p.stackLow i = kstack p.image i :=
  if_neg notBoot

theorem stackHigh_of_pos (p : Program) (notBoot : i ≠ 0) :
    p.stackHigh i = kstack p.image i + kstackSize := if_neg notBoot

/-- The top of a stack in the table of tasks. -/
theorem Program.Placed.top_facts (placed : p.Placed) (i : Fin 8) :
    kstack p.image i + kstackSize < 2 ^ 64 ∧ (kstack p.image i + kstackSize) % 16 = 0 ∧
      64 ≤ kstack p.image i + kstackSize := by
  have inside := placed.taskAddr_lt i
  have aligned := placed.aligned
  unfold kstack taskAddr at *
  unfold kstackSize taskStructSize at *
  omega

end Ownership

end Sched
end AuraKernel
