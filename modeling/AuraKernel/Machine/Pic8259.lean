import Mathlib.Data.List.Range
import Mathlib.Tactic.IntervalCases

namespace AuraKernel
namespace Machine

/-!
# The 8259A interrupt controller

A chip has eight request lines.  A request that is not masked is passed on unless
one of the same or a higher priority is in service; line 0 has the highest.  When
the processor acknowledges it, the request is in service until the end of the
interrupt is announced.  Two chips are cascaded, the second at a line of the first.

The model covers edge-triggered lines in fully nested mode.  Rotating priorities,
the special mask mode and the status reads are left out.
-/

/-- What the chip takes the next byte at its data port for. -/
inductive Expects
  | mask
  | icw2 (single icw4 : Bool)
  | icw3 (icw4 : Bool)
  | icw4
deriving DecidableEq, Repr

structure Pic where
  requests : BitVec 8
  service : BitVec 8
  mask : BitVec 8
  base : BitVec 8
  cascade : BitVec 8
  autoEnd : Bool
  mode8086 : Bool
  expects : Expects
deriving DecidableEq, Repr

/-- The register in which one line is set. -/
def lineBit (line : Nat) : BitVec 8 := BitVec.twoPow 8 line

/-- The line of the highest priority in a register. -/
def highest (register : BitVec 8) : Option Nat := (List.range 8).find? register.getLsbD

namespace Pic

/-- The requests that are not masked. -/
def pending (p : Pic) : BitVec 8 := p.requests &&& ~~~p.mask

/-- The line for which the chip interrupts. -/
def request (p : Pic) : Option Nat :=
  match highest p.pending, highest p.service with
  | none, _ => none
  | some line, none => some line
  | some line, some serviced => if line < serviced then some line else none

/-- A rising edge at a line -/
def raise (line : Nat) (p : Pic) : Pic := { p with requests := p.requests ||| lineBit line }

def drop (line : Nat) (p : Pic) : Pic := { p with requests := p.requests &&& ~~~lineBit line }

/-- The processor acknowledges the line. -/
def accept (line : Nat) (p : Pic) : Pic :=
  { p with
    requests := p.requests &&& ~~~lineBit line
    service := if p.autoEnd then p.service else p.service ||| lineBit line }

/-- The end of the interrupt of one line -/
def endOf (line : Nat) (p : Pic) : Pic := { p with service := p.service &&& ~~~lineBit line }

/-- A byte at the command port: ICW1, OCW3 or OCW2. -/
def command (value : BitVec 8) (p : Pic) : Pic :=
  if value.getLsbD 4 then
    { p with
      requests := 0
      service := 0
      mask := 0
      autoEnd := false
      mode8086 := false
      expects := .icw2 (value.getLsbD 1) (value.getLsbD 0) }
  else if value.getLsbD 3 then p
  else if value >>> 5 = 1 then
    match highest p.service with
    | some line => p.endOf line
    | none => p
  else if value >>> 5 = 3 then p.endOf (value.toNat % 8)
  else p

def data (value : BitVec 8) (p : Pic) : Pic :=
  match p.expects with
  | .mask => { p with mask := value }
  | .icw2 single icw4 =>
      { p with
        base := value &&& 0xF8
        expects := if single then (if icw4 then .icw4 else .mask) else .icw3 icw4 }
  | .icw3 icw4 =>
      { p with
        cascade := value
        expects := if icw4 then .icw4 else .mask }
  | .icw4 =>
      { p with
        autoEnd := value.getLsbD 1
        mode8086 := value.getLsbD 0
        expects := .mask }

end Pic

/-- Two chips, the second at line 2 of the first. -/
structure Pics where
  master : Pic
  slave : Pic
deriving DecidableEq, Repr

namespace Pics

/-- The first chip with the request of the second. -/
def cascaded (p : Pics) : Pic := if p.slave.request.isSome then p.master.raise 2 else p.master

/-- The processor is interrupted. -/
def request (p : Pics) : Option Nat := p.cascaded.request

/-- The processor acknowledges, and reads the vector.  If the request has gone, the vector is
that of line 7, and nothing gets in service. -/
def acknowledge (p : Pics) : Pics × BitVec 8 :=
  match p.request with
  | none => (p, p.master.base + 7)
  | some line =>
      let master := p.cascaded.accept line
      if p.master.cascade.getLsbD line then
        match p.slave.request with
        | some inner => ({ master := master, slave := p.slave.accept inner },
            p.slave.base + BitVec.ofNat 8 inner)
        | none => ({ p with master := master }, p.slave.base + 7)
      else ({ p with master := master }, p.master.base + BitVec.ofNat 8 line)

/-- A rising edge at a line of one of the chips -/
def raise (ofSlave : Bool) (line : Nat) (p : Pics) : Pics :=
  if ofSlave then { p with slave := p.slave.raise line }
  else { p with master := p.master.raise line }

def drop (ofSlave : Bool) (line : Nat) (p : Pics) : Pics :=
  if ofSlave then { p with slave := p.slave.drop line }
  else { p with master := p.master.drop line }

end Pics

/-! ## Registers -/

section Registers

variable {register : BitVec 8} {line other : Nat}

@[simp] theorem getLsbD_lineBit (inside : line < 8) :
    (lineBit line).getLsbD other = decide (line = other) := by
  unfold lineBit
  rw [BitVec.getLsbD_twoPow]
  simp [inside]

theorem highest_bit (found : highest register = some line) :
    line < 8 ∧ register.getLsbD line = true :=
  ⟨List.mem_range.mp (List.mem_of_find?_eq_some found), List.find?_some found⟩

theorem highest_eq_none_iff : highest register = none ↔ register = 0 := by
  unfold highest
  rw [List.find?_eq_none]
  constructor
  · intro none
    apply BitVec.eq_of_getLsbD_eq
    intro i inside
    rw [Bool.eq_false_iff.mpr (none i (List.mem_range.mpr inside))]
    simp
  · rintro rfl i _
    simp

theorem highest_lineBit (inside : line < 8) : highest (lineBit line) = some line := by
  interval_cases line
  all_goals decide

/-- A line that is set keeps the register from being empty. -/
theorem highest_isSome (bit : register.getLsbD line = true) : (highest register).isSome = true := by
  rw [Option.isSome_iff_ne_none, Ne, highest_eq_none_iff]
  rintro rfl
  simp at bit

end Registers

namespace Pic

variable {p : Pic} {line : Nat}

/-- A chip that serves nothing interrupts for any request that is not masked. -/
theorem request_of_idle (idle : p.service = 0) : p.request = highest p.pending := by
  unfold request
  rw [idle, highest_eq_none_iff.mpr rfl]
  cases highest p.pending with
  | none => rfl
  | some line => rfl

/-- The unspecific end of interrupt ends the only one in service. -/
theorem command_end (serving : p.service = lineBit line) (inside : line < 8) :
    p.command 0x20 = { p with service := 0 } := by
  have ended : p.command 0x20 = p.endOf line := by
    unfold command
    rw [serving, highest_lineBit inside]
    rfl
  rw [ended]
  unfold endOf
  rw [serving]
  simp

/-- Without one in service it does nothing. -/
theorem command_end_idle (idle : p.service = 0) : p.command 0x20 = p := by
  unfold command
  rw [idle, highest_eq_none_iff.mpr rfl]
  rfl

end Pic

end Machine
end AuraKernel
