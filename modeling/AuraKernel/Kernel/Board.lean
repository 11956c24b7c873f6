import AuraKernel.Interrupts.Pic
import AuraKernel.Kernel.Heartbeat

namespace AuraKernel
namespace Kernel

open Machine
open Interrupts

/-!
# Interrupts as the hardware delivers them

The model of the main loop takes an interrupt to be one step.  Here it is what the
hardware and `idt.c` make of it: a device raises a line, the processor accepts the
request with interrupts disabled and acknowledges it, `irq_handler` calls the
registered function and announces the end, and `iretq` enables interrupts again.
A line may become low before it is acknowledged; the controller then delivers a
spurious interrupt.

Every run of this machine is a run of the main loop, so what holds of the main
loop holds of it.
-/

inductive Activity
  | running
  | acknowledging
  | entered (vector : BitVec 8)
  | called (vector : BitVec 8)
  | returning
deriving DecidableEq, Repr

/-- How often each line of the first controller was raised, was withdrawn before it was
acknowledged, and had its handler called. -/
structure Tally where
  raised : Nat → Nat
  dropped : Nat → Nat
  served : Nat → Nat

/-- The main loop, the controllers and the processor. -/
structure Board where
  loop : Loop
  pics : Pics
  activity : Activity
  tally : Tally

namespace Board

def count (line : Nat) (counts : Nat → Nat) : Nat → Nat :=
  Function.update counts line (counts line + 1)

/-- A device raises a line of the first controller; a request that is still there is not
doubled. -/
def raise (line : Nat) (b : Board) : Board :=
  { b with
    pics := b.pics.raise false line
    tally :=
      if b.pics.master.requests.getLsbD line then b.tally
      else { b.tally with raised := count line b.tally.raised } }

/-- The line becomes low again. -/
def drop (line : Nat) (b : Board) : Board :=
  { b with
    pics := b.pics.drop false line
    tally :=
      if b.pics.master.requests.getLsbD line then
        { b.tally with dropped := count line b.tally.dropped }
      else b.tally }

/-- `interrupt_handlers[regs->int_no](regs)`, if it is registered; a processor that was halted
goes on behind `hlt` in any case. -/
def dispatch (vector : BitVec 8) (scancode : UInt8) (loop : Loop) : Loop :=
  match installedHandlers vector with
  | some .pitIrqHandler => loop.timerIrq
  | some .keyboardHandler => loop.keyboardIrq scancode
  | some .pageFaultHandler => loop
  | none => loop.woken

inductive Step : Board → Board → Prop
  | statement {b : Board} {loop : Loop} (running : b.activity = .running)
      (done : Loop.Statement b.loop loop) : Step b { b with loop := loop }
  | arrives {b : Board} (byte : UInt8) : Step b { b with loop := b.loop.arrives byte }
  | raise {b : Board} (line : Nat) (inside : line < 8) (notCascade : line ≠ 2) :
      Step b (b.raise line)
  | drop {b : Board} (line : Nat) (inside : line < 8) (notCascade : line ≠ 2) :
      Step b (b.drop line)
  | raiseSlave {b : Board} (line : Nat) (inside : line < 8) :
      Step b { b with pics := b.pics.raise true line }
  | dropSlave {b : Board} (line : Nat) (inside : line < 8) :
      Step b { b with pics := b.pics.drop true line }
  | accept {b : Board} (running : b.activity = .running) (enabled : b.loop.place ≠ .away)
      (interrupts : b.pics.request.isSome = true) : Step b { b with activity := .acknowledging }
  | acknowledge {b : Board} (here : b.activity = .acknowledging) :
      Step b { b with
        pics := b.pics.acknowledge.1
        activity := .entered b.pics.acknowledge.2 }
  | call {b : Board} {vector : BitVec 8} (here : b.activity = .entered vector) (scancode : UInt8) :
      Step b { b with
        loop := dispatch vector scancode b.loop
        activity := .called vector
        tally := { b.tally with served := count (irqOf vector).toNat b.tally.served } }
  | sendEoi {b : Board} {vector : BitVec 8} (here : b.activity = .called vector) :
      Step b { b with
        pics := picSendEoi (irqOf vector) b.pics
        activity := .returning }
  | iret {b : Board} (here : b.activity = .returning) : Step b { b with activity := .running }

/-- In front of `sti`, whatever the controllers were doing before `isr_install`. -/
def start (buf : Int → UInt8) (cmdBuf : Nat → UInt8) (logHistory : Nat → Nat → UInt8)
    (pics : Pics) : Board where
  loop := Loop.start buf cmdBuf logHistory
  pics := picRemap 0x20 0x28 pics
  activity := .running
  tally :=
    { raised := fun _ => 0
      dropped := fun _ => 0
      served := fun _ => 0 }

def Reachable (b : Board) : Prop :=
  ∃ buf cmdBuf logHistory pics, Relation.ReflTransGen Step (start buf cmdBuf logHistory pics) b

end Board

/-- The handler of a line is about to be called. -/
def Activity.underway (line : Nat) : Activity → Nat
  | entered vector => if vector = 32 + BitVec.ofNat 8 line then 1 else 0
  | _ => 0

/-- The interrupts are in order: the main loop sees them as atomic steps, nothing is left in
service, and no request of the timer or the keyboard is kept waiting by an earlier one.  Each
request is served once, unless its device withdraws it before it is acknowledged. -/
structure Orderly (b : Board) : Prop where
  refines : b.loop.Reachable
  vectors : ∀ vector, b.activity = .entered vector ∨ b.activity = .called vector →
    vector = 32 ∨ vector = 33 ∨ vector = 39
  quiet : (∀ vector, b.activity ≠ .entered vector ∧ b.activity ≠ .called vector) →
    b.pics.master.service = 0 ∧ b.pics.slave.service = 0
  deliverable : b.activity = .running → ∀ line, line < 2 →
    b.pics.master.requests.getLsbD line = true → b.pics.request.isSome = true
  served : ∀ line, line < 2 → b.tally.raised line =
    b.tally.served line + b.tally.dropped line + b.activity.underway line +
      if b.pics.master.requests.getLsbD line then 1 else 0

/-! ## The controllers -/

/-- What is in service while the processor does something. -/
def Serves (service : BitVec 8) : Activity → Prop
  | .entered vector =>
      (∃ line, line < 2 ∧ vector = 32 + BitVec.ofNat 8 line ∧ service = lineBit line) ∨
        vector = 39 ∧ service = 0
  | .called vector =>
      (∃ line, line < 2 ∧ vector = 32 + BitVec.ofNat 8 line ∧ service = lineBit line) ∨
        vector = 39 ∧ service = 0
  | _ => service = 0

structure BoardInv (b : Board) : Prop where
  loop : b.loop.Reachable
  enabled : b.activity ≠ .running → b.loop.place ≠ .away
  programmed : Programmed b.pics
  noCascade : b.pics.master.requests.getLsbD 2 = false
  slaveService : b.pics.slave.service = 0
  service : Serves b.pics.master.service b.activity
  served : ∀ line, line < 2 → b.tally.raised line =
    b.tally.served line + b.tally.dropped line + b.activity.underway line +
      if b.pics.master.requests.getLsbD line then 1 else 0

namespace BoardInv

variable {b : Board}

/-- A spurious interrupt is a break code to the main loop. -/
theorem keyboardIrq_break (loop : Loop) : loop.keyboardIrq 0x80 = loop.woken := by
  have same : Drivers.keyboardHandler 0x80 loop.keys.kbd = loop.keys.kbd := by
    unfold Drivers.keyboardHandler
    rw [if_pos (by decide)]
  have nothing : Drivers.stored 0x80 loop.keys.kbd = [] := by
    unfold Drivers.stored
    rw [same, if_pos rfl]
  unfold Loop.keyboardIrq
  rw [same, nothing, List.append_nil]

theorem reaches {loop loop' : Loop} (reachable : loop.Reachable) (step : Loop.Step loop loop') :
    loop'.Reachable := by
  rcases reachable with ⟨buf, cmdBuf, logHistory, run⟩
  exact ⟨buf, cmdBuf, logHistory, run.tail step⟩

/-- The handler that is called is an interrupt of the main loop. -/
theorem dispatch_step {loop : Loop} (enabled : loop.place ≠ .away) {vector : BitVec 8}
    (known : vector = 32 ∨ vector = 33 ∨ vector = 39) (scancode : UInt8) :
    Loop.Step loop (Board.dispatch vector scancode loop) := by
  rcases known with rfl | rfl | rfl
  · exact Loop.Step.timerIrq enabled
  · exact Loop.Step.keyboardIrq scancode enabled
  · have spurious := Loop.Step.keyboardIrq 0x80 enabled
    rw [keyboardIrq_break] at spurious
    exact spurious

theorem woken_place {loop : Loop} (enabled : loop.place ≠ .away) : loop.woken.place ≠ .away := by
  unfold Loop.woken
  split
  · simp
  · exact enabled

/-- No handler takes the processor to the panic screen. -/
theorem dispatch_place {loop : Loop} (enabled : loop.place ≠ .away) (vector : BitVec 8)
    (scancode : UInt8) : (Board.dispatch vector scancode loop).place ≠ .away := by
  unfold Board.dispatch
  split
  · exact woken_place enabled
  · exact woken_place enabled
  · exact enabled
  · exact woken_place enabled

theorem arrives_place (byte : UInt8) (loop : Loop) :
    (loop.arrives byte).place = loop.place := by
  unfold Loop.arrives
  split
  all_goals rfl

theorem vectors_of_serves {service : BitVec 8} {activity : Activity} {vector : BitVec 8}
    (serves : Serves service activity)
    (here : activity = .entered vector ∨ activity = .called vector) :
    vector = 32 ∨ vector = 33 ∨ vector = 39 := by
  have known : (∃ line, line < 2 ∧ vector = 32 + BitVec.ofNat 8 line ∧ service = lineBit line) ∨
      vector = 39 ∧ service = 0 := by
    rcases here with rfl | rfl
    · exact serves
    · exact serves
  rcases known with ⟨line, low, rfl, _⟩ | ⟨rfl, _⟩
  · interval_cases line
    · exact Or.inl rfl
    · exact Or.inr (Or.inl rfl)
  · exact Or.inr (Or.inr rfl)

/-- Raising or withdrawing a request leaves the programming alone. -/
theorem programmed_requests {pics : Pics} (programmed : Programmed pics)
    (master slave : BitVec 8) :
    Programmed { master := { pics.master with requests := master }
                 slave := { pics.slave with requests := slave } } :=
  { programmed with }

theorem getLsbD_raised {register : BitVec 8} {line other : Nat} (inside : line < 8) :
    (register ||| lineBit line).getLsbD other =
      (register.getLsbD other || decide (line = other)) := by
  rw [BitVec.getLsbD_or, getLsbD_lineBit inside]

theorem getLsbD_dropped {register : BitVec 8} {line other : Nat} (inside : line < 8)
    (inside' : other < 8) :
    (register &&& ~~~lineBit line).getLsbD other =
      (register.getLsbD other && !decide (line = other)) := by
  rw [BitVec.getLsbD_and, BitVec.getLsbD_not, getLsbD_lineBit inside]
  simp [inside']

theorem count_self (line : Nat) (counts : Nat → Nat) :
    Board.count line counts line = counts line + 1 :=
  Function.update_self ..

theorem count_of_ne {line other : Nat} (different : other ≠ line) (counts : Nat → Nat) :
    Board.count line counts other = counts other :=
  Function.update_of_ne different ..

theorem raise (inv : BoardInv b) {line : Nat} (inside : line < 8) (notCascade : line ≠ 2) :
    BoardInv (b.raise line) := by
  have bit : ∀ other, (b.raise line).pics.master.requests.getLsbD other =
      (b.pics.master.requests.getLsbD other || decide (line = other)) :=
    fun _ => getLsbD_raised inside
  constructor
  case loop => exact inv.loop
  case enabled => exact inv.enabled
  case programmed => exact programmed_requests inv.programmed _ _
  case noCascade =>
    rw [bit, inv.noCascade]
    exact decide_eq_false notCascade
  case slaveService => exact inv.slaveService
  case service => exact inv.service
  case served =>
    intro other low
    have served := inv.served other low
    rw [bit]
    unfold Board.raise
    dsimp only
    by_cases same : line = other
    · subst same
      cases pending : b.pics.master.requests.getLsbD line with
      | true =>
          rw [pending] at served
          simpa using served
      | false =>
          rw [pending] at served
          simp only [Bool.false_eq_true, if_false, count_self, Bool.false_or, decide_true, if_true]
            at served ⊢
          omega
    · rw [decide_eq_false same, Bool.or_false]
      split
      · exact served
      · dsimp only
        rw [count_of_ne (Ne.symm same)]
        exact served

theorem drop (inv : BoardInv b) {line : Nat} (inside : line < 8) : BoardInv (b.drop line) := by
  have bit : ∀ other, other < 8 → (b.drop line).pics.master.requests.getLsbD other =
      (b.pics.master.requests.getLsbD other && !decide (line = other)) :=
    fun _ inside' => getLsbD_dropped inside inside'
  constructor
  case loop => exact inv.loop
  case enabled => exact inv.enabled
  case programmed => exact programmed_requests inv.programmed _ _
  case noCascade =>
    rw [bit 2 (by decide), inv.noCascade]
    rfl
  case slaveService => exact inv.slaveService
  case service => exact inv.service
  case served =>
    intro other low
    have served := inv.served other low
    rw [bit other (by omega)]
    unfold Board.drop
    dsimp only
    by_cases same : line = other
    · subst same
      cases pending : b.pics.master.requests.getLsbD line with
      | true =>
          rw [pending] at served
          simp only [if_true, count_self, decide_true, Bool.not_true, Bool.and_false,
            Bool.false_eq_true, if_false] at served ⊢
          omega
      | false =>
          rw [pending] at served
          simpa using served
    · rw [decide_eq_false same, Bool.not_false, Bool.and_true]
      split
      · dsimp only
        rw [count_of_ne (Ne.symm same)]
        exact served
      · exact served

/-- The request that is acknowledged gets in service, or the interrupt is spurious. -/
theorem acknowledge_cases (inv : BoardInv b) (here : b.activity = .acknowledging) :
    (∃ line, line < 2 ∧ b.pics.master.requests.getLsbD line = true ∧
        b.pics.acknowledge = ({ b.pics with master := b.pics.master.accept line },
          32 + BitVec.ofNat 8 line)) ∨
      b.pics.acknowledge = (b.pics, 39) := by
  have idle : b.pics.master.service = 0 := by
    have service := inv.service
    rw [here] at service
    exact service
  unfold Pics.acknowledge
  cases found : b.pics.request with
  | none =>
      dsimp only
      rw [inv.programmed.masterBase]
      exact Or.inr rfl
  | some line =>
      rcases (inv.programmed.request_iff idle inv.noCascade).1 line found with ⟨low, bit⟩
      have notSlave : b.pics.master.cascade.getLsbD line = false := by
        rw [inv.programmed.masterCascade]
        interval_cases line
        · rfl
        · rfl
      dsimp only
      rw [notSlave, inv.programmed.cascaded_eq, inv.programmed.masterBase]
      exact Or.inl ⟨line, low, bit, rfl⟩

theorem acknowledge (inv : BoardInv b) (here : b.activity = .acknowledging) :
    BoardInv { b with
      pics := b.pics.acknowledge.1
      activity := .entered b.pics.acknowledge.2 } := by
  have idle : b.pics.master.service = 0 := by
    have service := inv.service
    rw [here] at service
    exact service
  have served := inv.served
  rw [here] at served
  have enabled := inv.enabled (by rw [here]; simp)
  rcases inv.acknowledge_cases here with ⟨line, low, bit, same⟩ | same
  · rw [same]
    have inside : line < 8 := by omega
    constructor
    case loop => exact inv.loop
    case enabled => exact fun _ => enabled
    case programmed => exact { inv.programmed with }
    case noCascade =>
      refine (getLsbD_dropped inside (by decide)).trans ?_
      rw [inv.noCascade]
      rfl
    case slaveService => exact inv.slaveService
    case service =>
      refine Or.inl ⟨line, low, rfl, ?_⟩
      unfold Pic.accept
      dsimp only
      rw [inv.programmed.masterEnd, idle]
      simp
    case served =>
      intro other low'
      have old := served other low'
      have bit' : (b.pics.master.accept line).requests.getLsbD other =
          (b.pics.master.requests.getLsbD other && !decide (line = other)) :=
        getLsbD_dropped inside (by omega)
      dsimp only
      rw [bit']
      unfold Activity.underway at old ⊢
      by_cases equal : line = other
      · subst equal
        rw [bit] at old ⊢
        simpa using old
      · have different : 32 + BitVec.ofNat 8 line ≠ 32 + BitVec.ofNat 8 other := by
          interval_cases line
          all_goals interval_cases other
          all_goals first | exact absurd rfl equal | decide
        rw [decide_eq_false equal]
        dsimp only
        rw [if_neg different]
        simpa using old
  · rw [same]
    constructor
    case loop => exact inv.loop
    case enabled => exact fun _ => enabled
    case programmed => exact inv.programmed
    case noCascade => exact inv.noCascade
    case slaveService => exact inv.slaveService
    case service => exact Or.inr ⟨rfl, idle⟩
    case served =>
      intro other low'
      have old := served other low'
      have different : (39 : BitVec 8) ≠ 32 + BitVec.ofNat 8 other := by
        interval_cases other
        · decide
        · decide
      unfold Activity.underway at old ⊢
      dsimp only at old ⊢
      rw [if_neg different]
      exact old

theorem call (inv : BoardInv b) {vector : BitVec 8} (here : b.activity = .entered vector)
    (scancode : UInt8) :
    BoardInv { b with
      loop := Board.dispatch vector scancode b.loop
      activity := .called vector
      tally := { b.tally with
        served := Board.count (irqOf vector).toNat b.tally.served } } := by
  have enabled := inv.enabled (by rw [here]; simp)
  have service := inv.service
  have known := vectors_of_serves service (Or.inl here)
  constructor
  case loop => exact reaches inv.loop (dispatch_step enabled known scancode)
  case enabled => exact fun _ => dispatch_place enabled vector scancode
  case programmed => exact inv.programmed
  case noCascade => exact inv.noCascade
  case slaveService => exact inv.slaveService
  case service =>
    rw [here] at service
    exact service
  case served =>
    intro line low
    have old := inv.served line low
    rw [here] at old
    unfold Activity.underway at old ⊢
    dsimp only at old ⊢
    by_cases own : vector = 32 + BitVec.ofNat 8 line
    · have irq : (irqOf vector).toNat = line := by
        rw [own]
        interval_cases line
        · rfl
        · rfl
      rw [if_pos own] at old
      rw [irq, count_self]
      omega
    · have other : line ≠ (irqOf vector).toNat := by
        rintro rfl
        rcases known with rfl | rfl | rfl
        · exact own rfl
        · exact own rfl
        · exact absurd low (by decide)
      rw [if_neg own] at old
      rw [count_of_ne other]
      exact old

/-- The end of the interrupt leaves nothing in service. -/
theorem sendEoi (inv : BoardInv b) {vector : BitVec 8} (here : b.activity = .called vector) :
    BoardInv { b with
      pics := picSendEoi (irqOf vector) b.pics
      activity := .returning } := by
  have service := inv.service
  have known := vectors_of_serves service (Or.inr here)
  rw [here] at service
  have ended : picSendEoi (irqOf vector) b.pics =
      { b.pics with master := b.pics.master.command 0x20 } := by
    rcases known with rfl | rfl | rfl
    · rfl
    · rfl
    · rfl
  have nothing : b.pics.master.command 0x20 = { b.pics.master with service := 0 } := by
    rcases service with ⟨line, low, _, serving⟩ | ⟨_, idle⟩
    · exact Pic.command_end serving (by omega)
    · rw [Pic.command_end_idle idle, ← idle]
  rw [ended, nothing]
  have served := inv.served
  rw [here] at served
  exact
    { loop := inv.loop
      enabled := fun _ => inv.enabled (by rw [here]; simp)
      programmed := { inv.programmed with }
      noCascade := inv.noCascade
      slaveService := inv.slaveService
      service := rfl
      served := served }

theorem step {b' : Board} (inv : BoardInv b) (step : Board.Step b b') : BoardInv b' := by
  cases step with
  | statement running done =>
      exact { inv with
        loop := reaches inv.loop (.statement done)
        enabled := fun other => absurd running other }
  | arrives byte =>
      exact { inv with
        loop := reaches inv.loop (.arrives byte)
        enabled := fun other => (arrives_place byte b.loop).symm ▸ inv.enabled other }
  | raise line inside notCascade => exact inv.raise inside notCascade
  | drop line inside _ => exact inv.drop inside
  | raiseSlave line _ =>
      exact { inv with programmed := programmed_requests inv.programmed _ _ }
  | dropSlave line _ =>
      exact { inv with programmed := programmed_requests inv.programmed _ _ }
  | accept running enabled _ =>
      have service := inv.service
      have served := inv.served
      rw [running] at service served
      exact { inv with
        enabled := fun _ => enabled
        service := service
        served := served }
  | acknowledge here => exact inv.acknowledge here
  | call here scancode => exact inv.call here scancode
  | sendEoi here => exact inv.sendEoi here
  | iret here =>
      have service := inv.service
      have served := inv.served
      rw [here] at service served
      exact { inv with
        enabled := fun other => absurd rfl other
        service := service
        served := served }

end BoardInv

theorem boardInv_start (buf : Int → UInt8) (cmdBuf : Nat → UInt8)
    (logHistory : Nat → Nat → UInt8) (pics : Pics) :
    BoardInv (Board.start buf cmdBuf logHistory pics) := by
  rcases picRemap_programmed pics with ⟨programmed, requests, service, _, slaveService⟩
  constructor
  case loop => exact ⟨buf, cmdBuf, logHistory, Relation.ReflTransGen.refl⟩
  case enabled => exact fun other => absurd rfl other
  case programmed => exact programmed
  case noCascade =>
    change (picRemap 0x20 0x28 pics).master.requests.getLsbD 2 = false
    rw [requests]
    rfl
  case slaveService => exact slaveService
  case service => exact service
  case served =>
    intro line _
    change _ = 0 + 0 + 0 + if (picRemap 0x20 0x28 pics).master.requests.getLsbD line then 1 else 0
    rw [requests]
    simp [Board.start]

theorem Board.Reachable.inv {b : Board} (reachable : b.Reachable) : BoardInv b := by
  rcases reachable with ⟨buf, cmdBuf, logHistory, pics, run⟩
  induction run with
  | refl => exact boardInv_start buf cmdBuf logHistory pics
  | tail _ step inductionHypothesis => exact inductionHypothesis.step step

/-- Whatever the devices do, from `pic_remap` on and in any order with the steps of the
processor, the interrupts stay in order; and the machine refines the main loop, so that what is
proved of every run of the loop holds of it too. -/
theorem reachable_orderly {b : Board} (reachable : b.Reachable) : Orderly b := by
  have inv := reachable.inv
  have service := inv.service
  constructor
  case refines => exact inv.loop
  case vectors => exact fun vector here => BoardInv.vectors_of_serves service here
  case quiet =>
    intro outside
    refine ⟨?_, inv.slaveService⟩
    cases here : b.activity with
    | entered vector => exact absurd here (outside vector).1
    | called vector => exact absurd here (outside vector).2
    | running => rw [here] at service; exact service
    | acknowledging => rw [here] at service; exact service
    | returning => rw [here] at service; exact service
  case deliverable =>
    intro running line low bit
    rw [running] at service
    exact (inv.programmed.request_iff service inv.noCascade).2 line low bit
  case served => exact inv.served

/-- A key and a tick arrive together, and the tick is served first. -/
theorem reachable_orderly_small :
    ∃ b, Orderly b ∧ b.activity = .running ∧ b.loop.keys.accepted = [97] ∧ b.loop.ticks = 1 ∧
      b.tally.served 0 = 1 ∧ b.tally.served 1 = 1 := by
  let chip : Pic := ⟨0, 0, 0, 0, 0, false, false, .mask⟩
  let initial : Board := Board.start (fun _ => 0) (fun _ => 0) (fun _ _ => 0) ⟨chip, chip⟩
  have raised : Relation.ReflTransGen Board.Step initial _ :=
    Relation.ReflTransGen.refl.tail (.raise 1 (by decide) (by decide))
      |>.tail (.raise 0 (by decide) (by decide))
  have tick := raised.tail (.accept rfl (by decide) (by decide)) |>.tail (.acknowledge rfl)
    |>.tail (.call rfl 0) |>.tail (.sendEoi rfl) |>.tail (.iret rfl)
  have key := tick.tail (.accept rfl (by decide +kernel) (by decide +kernel))
    |>.tail (.acknowledge rfl)
    |>.tail (.call rfl 0x1E) |>.tail (.sendEoi rfl) |>.tail (.iret rfl)
  refine ⟨_, reachable_orderly ⟨_, _, _, _, key⟩, ?_, ?_, ?_, ?_, ?_⟩
  · rfl
  · decide +kernel
  · decide +kernel
  · decide +kernel
  · decide +kernel

end Kernel
end AuraKernel
