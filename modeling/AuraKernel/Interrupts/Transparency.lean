import AuraKernel.Interrupts.Isr

namespace AuraKernel
namespace Interrupts

open Machine

/-!
# Interrupts are transparent

Every push is followed through the stub, the common stub and the call.  The
stack then holds a whole `struct registers`, and the pops take it apart again.
The three exceptions for which the processor pushes an error code and the stub
pushes a second one leave a word too much on the stack.
-/

/-! ## The frame of the processor -/

/-- The words that `iretq` takes from the stack. -/
def iretFrame (i : Interrupted) : List (BitVec 64) := [i.rip, i.cs, i.rflags, i.regs .rsp, i.ss]

/-- The vectors whose stub pushes a second error code. -/
def doubled : List Nat := [21, 29, 30]

section Frame

variable {handler : Handler} {vector : Nat} {errorCode : BitVec 64} {i : Interrupted}

theorem alignedRsp_mod (i : Interrupted) : i.alignedRsp.toNat % 16 = 0 := by
  have mask : (~~~15 : BitVec 64).toNat = 2 ^ 64 - 2 ^ 4 := by decide
  unfold Interrupted.alignedRsp
  rw [BitVec.toNat_and, mask, and_highMask (by decide)]
  exact Nat.mul_mod_left _ _

/-- The state after a list of pushes of values. -/
structure After (i : Interrupted) (c : Cpu) (words : List (BitVec 64)) : Prop where
  stack : Stacked c.mem c.rsp words
  rsp_eq : c.rsp = i.alignedRsp - BitVec.ofNat 64 (8 * words.length)
  regs_eq : ∀ r, r ≠ .rsp → c.regs r = i.regs r
  aligned : c.rsp.toNat % 8 = 0

theorem After.push {c : Cpu} {words : List (BitVec 64)} (after : After i c words)
    (short : words.length < 100) (value : BitVec 64) : After i (c.push value) (value :: words) where
  stack := Cpu.push_stacked after.stack after.aligned (by omega) value
  rsp_eq := by
    rw [Cpu.push_rsp, after.rsp_eq, List.length_cons, Nat.mul_add, BitVec.ofNat_add]
    bv_omega
  regs_eq := fun r different => (c.push_regs value different).trans (after.regs_eq r different)
  aligned := by
    rw [Cpu.push_rsp]
    exact aligned_push after.aligned

/-- The words that the processor and the stub push behind the frame. -/
def stubWords (vector : Nat) (errorCode : BitVec 64) : List (BitVec 64) :=
  if vector ∈ doubled then [BitVec.ofNat 64 vector, 0, errorCode]
  else [BitVec.ofNat 64 vector, if vector ∈ errCodeStubs then errorCode else 0]

/-- The exceptions with an error code are those with an `ISR_ERRCODE` stub and three others. -/
theorem hasErrorCode_iff (vector : Nat) :
    hasErrorCode vector = true ↔ vector ∈ errCodeStubs ∨ vector ∈ doubled := by
  unfold hasErrorCode errCodeStubs doubled
  simp only [decide_eq_true_eq, List.mem_cons, List.not_mem_nil, or_false]
  omega

theorem not_doubled_of_errCode (member : vector ∈ errCodeStubs) : vector ∉ doubled := by
  unfold errCodeStubs at member
  unfold doubled
  simp only [List.mem_cons, List.not_mem_nil, or_false] at member ⊢
  omega

/-- The processor pushes its frame, and an error code for some exceptions. -/
theorem deliver_after (vector : Nat) (errorCode : BitVec 64) (i : Interrupted) :
    After i (deliver vector errorCode i)
      ((if hasErrorCode vector then [errorCode] else []) ++ iretFrame i) := by
  let start : Cpu :=
    { regs := Function.update i.regs .rsp i.alignedRsp, rip := i.rip, mem := i.mem }
  have startRsp : start.rsp = i.alignedRsp :=
    (⟨i.regs, i.rip, i.mem⟩ : Cpu).setReg_self .rsp i.alignedRsp
  have first : After i start [] := by
    refine ⟨trivial, startRsp.trans (BitVec.sub_zero _).symm,
      fun r different => Function.update_of_ne different _ _, ?_⟩
    have aligned := alignedRsp_mod i
    rw [startRsp]
    omega
  have framed := ((((first.push (by simp) i.ss).push (by simp) (i.regs .rsp)).push (by simp)
    i.rflags).push (by simp) i.cs).push (by simp) i.rip
  unfold deliver
  by_cases has : hasErrorCode vector = true
  · rw [if_pos has, if_pos has]
    exact framed.push (by simp) errorCode
  · rw [if_neg has, if_neg has]
    exact framed

theorem After.number {c : Cpu} {words : List (BitVec 64)} (after : After i c words)
    (short : words.length < 100) (num : Nat) :
    After i (Cpu.run (isrErrCode num) c) (BitVec.ofNat 64 num :: words) :=
  after.push short _

theorem After.dummy {c : Cpu} {words : List (BitVec 64)} (after : After i c words)
    (short : words.length + 1 < 100) (num : Nat) :
    After i (Cpu.run (isrNoErrCode num) c) (BitVec.ofNat 64 num :: 0 :: words) :=
  (after.push (by omega) 0).push (by rw [List.length_cons]; exact short) _

theorem gate_entry (bound : vector < 48) : (gate vector).entry =
    if vector ∈ errCodeStubs then isrErrCode vector else isrNoErrCode vector := by
  unfold gate
  by_cases exception : vector < 32
  · rw [if_pos exception]
    rfl
  · have notErrCode : vector ∉ errCodeStubs := by
      unfold errCodeStubs
      simp only [List.mem_cons, List.not_mem_nil, or_false]
      omega
    have same : 32 + (vector - 32) = vector := by omega
    rw [if_neg exception, if_neg notErrCode]
    unfold Stub.entry irqStub
    dsimp only
    rw [same]
    rfl

/-- The words on the stack in front of the common stub. -/
theorem entry_after (bound : vector < 48) (errorCode : BitVec 64) (i : Interrupted) :
    After i (Cpu.run (gate vector).entry (deliver vector errorCode i))
      (stubWords vector errorCode ++ iretFrame i) := by
  have framed := deliver_after vector errorCode i
  rw [gate_entry bound]
  unfold stubWords
  by_cases errCode : vector ∈ errCodeStubs
  · have has := (hasErrorCode_iff vector).mpr (Or.inl errCode)
    rw [if_pos has] at framed
    rw [if_pos errCode, if_neg (not_doubled_of_errCode errCode), if_pos errCode]
    exact framed.number (by simp [iretFrame]) vector
  · rw [if_neg errCode, if_neg errCode]
    by_cases double : vector ∈ doubled
    · have has := (hasErrorCode_iff vector).mpr (Or.inr double)
      rw [if_pos has] at framed
      rw [if_pos double]
      exact framed.dummy (by simp [iretFrame]) vector
    · have hasNot : ¬ hasErrorCode vector = true := by
        rw [hasErrorCode_iff, not_or]
        exact ⟨errCode, double⟩
      rw [if_neg hasNot] at framed
      rw [if_neg double]
      exact framed.dummy (by simp [iretFrame]) vector

/-- The stack at the call of the handler. -/
theorem atCall_stacked (bound : vector < 48) (errorCode : BitVec 64) (i : Interrupted) :
    Stacked (atCall vector errorCode i).mem (atCall vector errorCode i).rsp
        (savedRegs.reverse.map i.regs ++ (stubWords vector errorCode ++ iretFrame i)) ∧
      (atCall vector errorCode i).rsp = i.alignedRsp -
        BitVec.ofNat 64 (8 * (20 + (stubWords vector errorCode).length)) ∧
      (atCall vector errorCode i).regs .rdi = (atCall vector errorCode i).rsp ∧
      (atCall vector errorCode i).rsp.toNat % 8 = 0 := by
  have entry := entry_after bound errorCode i
  have short : (stubWords vector errorCode).length ≤ 3 := by
    unfold stubWords
    split <;> simp
  have total : (stubWords vector errorCode ++ iretFrame i).length =
      (stubWords vector errorCode).length + 5 := List.length_append
  have pushed := Cpu.run_pushes (by decide : .rsp ∉ savedRegs) entry.stack entry.aligned
    (by rw [total]; have fifteen : savedRegs.length = 15 := rfl; omega)
  have moved : (atCall vector errorCode i).rsp = (Cpu.run (savedRegs.map .pushReg)
      (Cpu.run (gate vector).entry (deliver vector errorCode i))).rsp := by
    unfold atCall commonEntry
    rw [Cpu.run_append]
    exact Cpu.setReg_of_ne _ _ _ (by decide)
  have rdi : (atCall vector errorCode i).regs .rdi = (Cpu.run (savedRegs.map .pushReg)
      (Cpu.run (gate vector).entry (deliver vector errorCode i))).rsp := by
    unfold atCall commonEntry
    rw [Cpu.run_append]
    exact Cpu.setReg_self _ _ _
  have mem : (atCall vector errorCode i).mem = (Cpu.run (savedRegs.map .pushReg)
      (Cpu.run (gate vector).entry (deliver vector errorCode i))).mem := by
    unfold atCall commonEntry
    rw [Cpu.run_append]
    rfl
  have sameRegs : savedRegs.reverse.map
      (Cpu.run (gate vector).entry (deliver vector errorCode i)).regs =
      savedRegs.reverse.map i.regs := by
    refine List.map_congr_left fun r member => entry.regs_eq r ?_
    rintro rfl
    exact absurd member (by decide)
  rw [moved, rdi, mem, ← sameRegs]
  refine ⟨pushed.stack, ?_, rfl, pushed.aligned⟩
  rw [pushed.rsp_eq, entry.rsp_eq, total]
  have fifteen : savedRegs.length = 15 := rfl
  rw [fifteen, BitVec.sub_sub, ← BitVec.ofNat_add]
  congr 2
  omega

/-- The handler finds the same stack behind the return address. -/
theorem atHandler_stacked (handler : Handler) (bound : vector < 48) (errorCode : BitVec 64)
    (i : Interrupted) :
    Stacked (atHandler handler vector errorCode i).mem
        ((atHandler handler vector errorCode i).regs .rdi)
        (savedRegs.reverse.map i.regs ++ (stubWords vector errorCode ++ iretFrame i)) ∧
      (atHandler handler vector errorCode i).regs .rdi = (atCall vector errorCode i).rsp := by
  rcases atCall_stacked bound errorCode i with ⟨stack, _, rdi, aligned⟩
  have rdiKept : (atHandler handler vector errorCode i).regs .rdi =
      (atCall vector errorCode i).rsp :=
    (Cpu.call_regs _ _ _ (by decide)).trans rdi
  refine ⟨?_, rdiKept⟩
  have short : (stubWords vector errorCode).length ≤ 3 := by
    unfold stubWords
    split <;> simp
  rw [rdiKept]
  refine stack.setWord_below aligned ?_
  simp only [List.length_append, List.length_map, List.length_reverse]
  have fifteen : savedRegs.length = 15 := rfl
  have five : (iretFrame i).length = 5 := rfl
  omega

/-! ## Reading the frame -/

theorem length_stubWords (vector : Nat) (errorCode : BitVec 64) :
    (stubWords vector errorCode).length = if vector ∈ doubled then 3 else 2 := by
  unfold stubWords
  split <;> rfl

/-- The members of `struct registers` lie one behind the other. -/
theorem get_registers (mem : Mem) (regs : BitVec 64) {index : Nat}
    (bound : index < registers.length) :
    registers[index].get mem regs = mem.word (regs + BitVec.ofNat 64 (8 * index)) := by
  unfold Field.get
  rw [List.Nodup.idxOf_getElem (by decide)]

/-- A member reads the word at its index. -/
theorem stacked_field {mem : Mem} {regs : BitVec 64} {words : List (BitVec 64)}
    (stack : Stacked mem regs words) {field : Field} {word : BitVec 64}
    (found : words[registers.idxOf field]? = some word) : field.get mem regs = word := by
  rcases List.getElem?_eq_some_iff.mp found with ⟨bound, same⟩
  exact (stack.get bound).trans same

/-- The registers that the handler leaves in its frame. -/
theorem Handler.Returns.stacked {c : Cpu} (returns : handler.Returns c) {words : List (BitVec 64)}
    (stack : Stacked c.mem (c.regs .rdi) words) (fits : words.length ≤ registers.length) :
    Stacked (handler.body c).mem (c.regs .rdi) words := by
  refine stacked_of_get fun index bound => ?_
  have inside : index < registers.length := Nat.lt_of_lt_of_le bound fits
  have kept := returns.frame_eq registers[index]
  rw [get_registers, get_registers] at kept
  exact kept.trans (stack.get bound)

/-! ## The end of the interrupt -/

/-- The state at `iretq`: the registers are back, and the stack pointer is behind
the two words that the stub should have pushed. -/
theorem atIret_eq (bound : vector < 48)
    (returns : handler.Returns (atHandler handler vector errorCode i)) :
    (∀ r, r ≠ .rsp → (atIret handler vector errorCode i).regs r = i.regs r) ∧
      (atIret handler vector errorCode i).rsp =
        i.alignedRsp - BitVec.ofNat 64 (8 * (3 + (stubWords vector errorCode).length)) := by
  rcases atCall_stacked bound errorCode i with ⟨_, rspCall, _, _⟩
  rcases atHandler_stacked handler bound errorCode i with ⟨stack, rdi⟩
  have rspBack : (handler.body (atHandler handler vector errorCode i)).rsp =
      (atHandler handler vector errorCode i).regs .rdi := by
    rw [returns.rsp_eq, rdi]
    exact (congrArg (· + 8) (Cpu.call_rsp _ _ _)).trans (BitVec.sub_add_cancel _ _)
  have saved : Stacked (atHandler handler vector errorCode i).mem
      ((atHandler handler vector errorCode i).regs .rdi) (savedRegs.reverse.map i.regs) :=
    stack.left
  have kept := returns.stacked saved (by rw [List.length_map]; decide)
  rw [← rspBack, ← List.append_nil (savedRegs.reverse.map i.regs)] at kept
  have popped := Cpu.run_pops (by decide : .rsp ∉ savedRegs.reverse) (by decide) kept
  have iret : atIret handler vector errorCode i =
      (Instr.addImm 16 .rsp).exec (Cpu.run (savedRegs.reverse.map .popReg)
        (handler.body (atHandler handler vector errorCode i))) := by
    unfold atIret commonExit
    rw [Cpu.run_append]
    rfl
  constructor
  · intro r different
    have member : r ∈ savedRegs.reverse := by
      cases r <;> first | exact absurd rfl different | decide
    rw [iret]
    exact (Cpu.setReg_of_ne _ _ _ different).trans (popped.restored_eq r member)
  · have final : (atIret handler vector errorCode i).rsp =
        (Cpu.run (savedRegs.reverse.map .popReg)
          (handler.body (atHandler handler vector errorCode i))).rsp + 16 := by
      rw [iret]
      exact Cpu.setReg_self _ _ _
    have fifteen : savedRegs.reverse.length = 15 := rfl
    rw [final, popped.rsp_eq, rspBack, rdi, rspCall, fifteen]
    have sum : 8 * (20 + (stubWords vector errorCode).length) =
        8 * (3 + (stubWords vector errorCode).length) + (8 * 15 + 16) := by omega
    rw [sum, BitVec.ofNat_add, BitVec.ofNat_add]
    bv_omega

/-- For every vector that the kernel has a stub for, whatever is interrupted and whatever the
handler does to registers and memory outside its frame, an interrupt is transparent exactly if
its stub does not push a second error code. -/
theorem transparent_iff (bound : vector < 48)
    (returns : handler.Returns (atHandler handler vector errorCode i)) :
    Transparent handler vector errorCode i ↔ vector ∉ [21, 29, 30] := by
  change _ ↔ vector ∉ doubled
  rcases atIret_eq bound returns with ⟨restored, rspIret⟩
  have count := length_stubWords vector errorCode
  constructor
  · intro transparent double
    rw [if_pos double] at count
    have misplaced := transparent.rsp_restored
    rw [rspIret, count] at misplaced
    unfold Interrupted.ripAddr at misplaced
    bv_omega
  · intro single
    rw [if_neg single] at count
    rcases atCall_stacked bound errorCode i with ⟨_, rspCall, _, _⟩
    rcases atHandler_stacked handler bound errorCode i with ⟨stack, rdi⟩
    have words : ∃ code, stubWords vector errorCode = [BitVec.ofNat 64 vector, code] := by
      unfold stubWords
      rw [if_neg single]
      exact ⟨_, rfl⟩
    rcases words with ⟨code, words⟩
    rw [words] at stack
    constructor
    case regs_read =>
      intro r
      cases r <;> exact stacked_field stack rfl
    case intNo_read => exact stacked_field stack rfl
    case rip_read => exact stacked_field stack rfl
    case cs_read => exact stacked_field stack rfl
    case rflags_read => exact stacked_field stack rfl
    case ss_read => exact stacked_field stack rfl
    case aligned =>
      have aligned := alignedRsp_mod i
      rw [rspCall, count]
      bv_omega
    case resumed =>
      rw [returns.rip_eq]
      unfold atHandler
      rw [Cpu.call_rsp, Cpu.call_mem, Mem.word_setWord_same]
    case restored => exact restored
    case rsp_restored =>
      rw [rspIret, count]
      rfl

/-- A handler that returns at once. -/
def returnsAtOnce : Handler where
  addr := 0x1000
  returnAddr := 0x2000
  body := Cpu.ret

/-- A machine whose registers and memory are zero but for the stack pointer. -/
def quiet : Interrupted where
  regs := fun r => if r = .rsp then 0x8000 else 0
  rip := 0x3000
  cs := 8
  rflags := 2
  ss := 16
  mem := fun _ => 0

theorem returnsAtOnce_returns (vector : Nat) (errorCode : BitVec 64) (i : Interrupted) :
    returnsAtOnce.Returns (atHandler returnsAtOnce vector errorCode i) where
  rip_eq := rfl
  rsp_eq := Cpu.ret_rsp _
  frame_eq := fun _ => rfl

theorem transparent_iff_pageFault : Transparent returnsAtOnce 14 2 quiet ↔ 14 ∉ [21, 29, 30] :=
  transparent_iff (by decide) (returnsAtOnce_returns 14 2 quiet)

/-- After a control protection exception `iretq` finds the error code first. -/
theorem not_transparent_controlProtection : ¬ Transparent returnsAtOnce 21 3 quiet := by
  intro transparent
  have rspEq := transparent.rsp_restored
  have actual : (atIret returnsAtOnce 21 3 quiet).rsp = 0x8000 - 48 := by decide +kernel
  rw [actual] at rspEq
  exact absurd rspEq (by decide)

end Frame

end Interrupts
end AuraKernel
