import AuraKernel.Machine.Pic8259

namespace AuraKernel
namespace Interrupts

open Machine

/-!
# The interrupt controllers and the table of handlers

`isr_install` in `kernel/arch/x86_shared/idt.c` moves the vectors of the two
controllers from 0-15 to 32-47 and masks all lines but those of the timer, the
keyboard and the cascade.  `irq_handler` calls the function that is registered for
the vector, and announces the end of the interrupt behind it.
-/

def pic1Command : BitVec 16 := 0x20
def pic1Data : BitVec 16 := 0x21
def pic2Command : BitVec 16 := 0xA0
def pic2Data : BitVec 16 := 0xA1

def icw1Init : BitVec 8 := 0x10
def icw1Icw4 : BitVec 8 := 0x01
def icw48086 : BitVec 8 := 0x01

def picEoi : BitVec 8 := 0x20

/-- `outb`, as far as the controllers see it -/
def outb (port : BitVec 16) (val : BitVec 8) (p : Pics) : Pics :=
  if port = pic1Command then { p with master := p.master.command val }
  else if port = pic1Data then { p with master := p.master.data val }
  else if port = pic2Command then { p with slave := p.slave.command val }
  else if port = pic2Data then { p with slave := p.slave.data val }
  else p

def ioWait (p : Pics) : Pics := outb 0x80 0 p

def picRemap (offset1 offset2 : Int) (p : Pics) : Pics :=
  -- ICW1: start initialization sequence in cascade mode
  let p := ioWait (outb pic1Command (icw1Init ||| icw1Icw4) p)
  let p := ioWait (outb pic2Command (icw1Init ||| icw1Icw4) p)
  -- ICW2: master/slave vector offsets
  let p := ioWait (outb pic1Data (BitVec.ofInt 8 offset1) p)
  let p := ioWait (outb pic2Data (BitVec.ofInt 8 offset2) p)
  -- ICW3: the slave is at IRQ2, and the slave's cascade identity
  let p := ioWait (outb pic1Data 0x04 p)
  let p := ioWait (outb pic2Data 0x02 p)
  -- ICW4: 8086 mode
  let p := ioWait (outb pic1Data icw48086 p)
  let p := ioWait (outb pic2Data icw48086 p)
  -- the masks
  let p := outb pic1Data 0xF8 p
  outb pic2Data 0xFF p

def picSendEoi (irq : BitVec 8) (p : Pics) : Pics :=
  let p := if irq ≥ 8 then outb pic2Command picEoi p else p
  outb pic1Command picEoi p

/-! ## Handlers -/

/-- The functions that the kernel registers. -/
inductive Routine
  | pitIrqHandler
  | keyboardHandler
  | pageFaultHandler
deriving DecidableEq, Repr

abbrev Handlers : Type := BitVec 8 → Option Routine

def isrRegisterHandler (num : BitVec 8) (handler : Routine) (handlers : Handlers) : Handlers :=
  fun other => if other = num then some handler else handlers other

/-- The table when `kernel_main` executes `sti`: `isr_install` has cleared it, and
`pagefault_init`, `pit_init` and `keyboard_init` have registered their handlers. -/
def installedHandlers : Handlers :=
  isrRegisterHandler 33 .keyboardHandler
    (isrRegisterHandler 32 .pitIrqHandler
      (isrRegisterHandler 14 .pageFaultHandler fun _ => none))

/-- The argument of `pic_send_eoi` in `irq_handler` -/
def irqOf (intNo : BitVec 8) : BitVec 8 := intNo - 32

/-! ## The controllers after `pic_remap` -/

/-- What `pic_remap` leaves in the registers that only it writes. -/
structure Programmed (p : Pics) : Prop where
  masterMask : p.master.mask = 0xF8
  slaveMask : p.slave.mask = 0xFF
  masterBase : p.master.base = 32
  slaveBase : p.slave.base = 40
  masterCascade : p.master.cascade = 4
  slaveCascade : p.slave.cascade = 2
  masterEnd : p.master.autoEnd = false
  slaveEnd : p.slave.autoEnd = false
  masterReady : p.master.expects = .mask
  slaveReady : p.slave.expects = .mask

/-- Whatever the controllers were doing, they are programmed afterwards, without a request and
with nothing in service. -/
theorem picRemap_programmed (p : Pics) :
    Programmed (picRemap 0x20 0x28 p) ∧ (picRemap 0x20 0x28 p).master.requests = 0 ∧
      (picRemap 0x20 0x28 p).master.service = 0 ∧ (picRemap 0x20 0x28 p).slave.requests = 0 ∧
      (picRemap 0x20 0x28 p).slave.service = 0 :=
  ⟨⟨rfl, rfl, rfl, rfl, rfl, rfl, rfl, rfl, rfl, rfl⟩, rfl, rfl, rfl, rfl⟩

namespace Programmed

variable {p : Pics}

/-- The second controller never interrupts. -/
theorem slave_request (programmed : Programmed p) : p.slave.request = none := by
  have nothing : p.slave.pending = 0 := by
    unfold Pic.pending
    rw [programmed.slaveMask]
    apply BitVec.eq_of_getLsbD_eq
    intro i inside
    simp only [BitVec.getLsbD_and, BitVec.getLsbD_not]
    interval_cases i
    all_goals simp
  unfold Pic.request
  rw [nothing, highest_eq_none_iff.mpr rfl]

theorem cascaded_eq (programmed : Programmed p) : p.cascaded = p.master := by
  unfold Pics.cascaded
  rw [programmed.slave_request]
  rfl

/-- Without one in service, the requests of the timer and the keyboard get through, and only
they do. -/
theorem request_iff (programmed : Programmed p) (idle : p.master.service = 0)
    (noCascade : p.master.requests.getLsbD 2 = false) :
    (∀ line, p.request = some line → line < 2 ∧ p.master.requests.getLsbD line = true) ∧
      ∀ line, line < 2 → p.master.requests.getLsbD line = true → p.request.isSome = true := by
  have request : p.request = highest p.master.pending := by
    unfold Pics.request
    rw [programmed.cascaded_eq]
    exact Pic.request_of_idle idle
  have unmasked : ∀ line, line < 8 → p.master.pending.getLsbD line =
      (p.master.requests.getLsbD line && decide (line < 3)) := by
    intro line inside
    unfold Pic.pending
    rw [programmed.masterMask, BitVec.getLsbD_and, BitVec.getLsbD_not]
    interval_cases line
    all_goals simp
  constructor
  · intro line found
    rw [request] at found
    rcases highest_bit found with ⟨inside, bit⟩
    rw [unmasked line inside, Bool.and_eq_true, decide_eq_true_eq] at bit
    refine ⟨?_, bit.1⟩
    have notCascade : line ≠ 2 := by
      rintro rfl
      rw [noCascade] at bit
      exact Bool.false_ne_true bit.1
    omega
  · intro line low bit
    rw [request]
    refine @highest_isSome p.master.pending line ?_
    rw [unmasked line (by omega), bit]
    simp
    omega

end Programmed

end Interrupts
end AuraKernel
