import AuraKernel.Machine.Memory
import Mathlib.Logic.Function.Basic

namespace AuraKernel
namespace Machine
namespace Mem

/-!
# Bits that a processor sets in memory

A processor notes in its tables what it has used: the accessed bit of a segment that
is loaded and of an entry that is walked through, the dirty bit of a page that is
written, the busy bit of a task.  It only ever sets such bits.  After any number of
notes a memory is therefore what it was but for the bits of a mask, and what software
does to it keeps that relation.
-/

def setBits (mem : Mem) (place : Nat) (bits : UInt8) : Mem :=
  Function.update mem place (mem place ||| bits)

/-- The memories are the same but for the bits that the mask has at each place. -/
def Agree (mask : Nat → UInt8) (mem mem' : Mem) : Prop :=
  ∀ place, mem' place ||| mask place = mem place ||| mask place

variable {mask : Nat → UInt8} {mem mem' mem'' : Mem} {place addr count : Nat} {bits : UInt8}

theorem setBits_self : mem.setBits place bits place = mem place ||| bits :=
  Function.update_self ..

theorem setBits_of_ne {other : Nat} (different : other ≠ place) :
    mem.setBits place bits other = mem other :=
  Function.update_of_ne different _ _

/-- Bits that are set already are not written. -/
theorem setBits_of_set (set : mem place ||| bits = mem place) : mem.setBits place bits = mem := by
  unfold setBits
  rw [set]
  exact Function.update_eq_self place mem

theorem load_setBits_of_outside (outside : place < addr ∨ addr + count ≤ place) :
    (mem.setBits place bits).load addr count = mem.load addr count :=
  load_congr fun other low high => setBits_of_ne (by omega)

theorem load_setBits_self :
    (mem.setBits place bits).load place 1 = mem.load place 1 ||| bits.toNat := by
  simp only [load, setBits_self, UInt8.toNat_or, Nat.mul_zero, Nat.add_zero]

namespace Agree

theorem refl (mask : Nat → UInt8) (mem : Mem) : Agree mask mem mem := fun _ => rfl

theorem trans (first : Agree mask mem mem') (second : Agree mask mem' mem'') :
    Agree mask mem mem'' := fun place => (second place).trans (first place)

/-- Outside the mask nothing differs. -/
theorem apply (agree : Agree mask mem mem') (clear : mask place = 0) : mem' place = mem place := by
  have same := agree place
  rw [clear, UInt8.or_zero, UInt8.or_zero] at same
  exact same

/-- Setting bits of the mask makes no difference. -/
theorem setBits (agree : Agree mask mem mem') (known : bits ||| mask place = mask place) :
    Agree mask mem (mem'.setBits place bits) := by
  intro other
  by_cases same : other = place
  · subst same
    rw [setBits_self, UInt8.or_assoc, known]
    exact agree other
  · rw [setBits_of_ne same]
    exact agree other

theorem setBits_both (agree : Agree mask mem mem') (place : Nat) (bits : UInt8) :
    Agree mask (mem.setBits place bits) (mem'.setBits place bits) := by
  intro other
  by_cases same : other = place
  · subst same
    rw [setBits_self, setBits_self, UInt8.or_assoc, UInt8.or_assoc, UInt8.or_comm bits,
      ← UInt8.or_assoc, ← UInt8.or_assoc, agree other]
  · rw [setBits_of_ne same, setBits_of_ne same]
    exact agree other

theorem store (agree : Agree mask mem mem') (addr count value : Nat) :
    Agree mask (mem.store addr count value) (mem'.store addr count value) := by
  intro place
  unfold Mem.store
  by_cases inside : addr ≤ place ∧ place < addr + count
  · rw [if_pos inside, if_pos inside]
  · rw [if_neg inside, if_neg inside]
    exact agree place

theorem load (agree : Agree mask mem mem')
    (clear : ∀ place, addr ≤ place → place < addr + count → mask place = 0) :
    mem'.load addr count = mem.load addr count :=
  load_congr fun place low high => agree.apply (clear place low high)

/-- A word whose first byte alone is in the mask. -/
theorem load_or (agree : Agree mask mem mem')
    (clear : ∀ place, addr < place → place < addr + count → mask place = 0) :
    mem'.load addr count ||| (mask addr).toNat = mem.load addr count ||| (mask addr).toNat := by
  cases count with
  | zero => rw [Mem.load, Mem.load]
  | succ count =>
      have upper : mem'.load (addr + 1) count = mem.load (addr + 1) count :=
        agree.load fun place low high => clear place (by omega) (by omega)
      have lower := congrArg UInt8.toNat (agree addr)
      rw [UInt8.toNat_or, UInt8.toNat_or] at lower
      apply Nat.eq_of_testBit_eq
      intro index
      have byte := congrArg (fun value => value.testBit index) lower
      simp only [Nat.testBit_or] at byte ⊢
      rw [Mem.load, Mem.load, upper, Nat.add_comm, Nat.add_comm (mem addr).toNat]
      rw [show (256 : Nat) = 2 ^ 8 from rfl, Nat.testBit_two_pow_mul_add _ (mem' addr).toNat_lt,
        Nat.testBit_two_pow_mul_add _ (mem addr).toNat_lt]
      by_cases low : index < 8
      · rw [if_pos low, if_pos low]
        exact byte
      · rw [if_neg low, if_neg low]

end Agree

end Mem
end Machine
end AuraKernel
