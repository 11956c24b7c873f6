import AuraKernel.Machine.Memory

namespace AuraKernel
namespace Machine

/-!
# Byte strings in memory

A data structure that some other program has laid out in memory is described by
the string of its bytes.  `Holds` says that a string lies at an address, and the
lemmas read the fields of the structure back from it.
-/

/-- The low `count` bytes of a value, least significant first. -/
def littleEndian : Nat → Nat → List UInt8
  | 0, _ => []
  | count + 1, value => UInt8.ofNat value :: littleEndian count (value / 256)

@[simp] theorem length_littleEndian (count value : Nat) :
    (littleEndian count value).length = count := by
  induction count generalizing value with
  | zero => rfl
  | succ count inductionHypothesis => rw [littleEndian, List.length_cons, inductionHypothesis]

/-- The bytes of a string lie in memory from `addr` on. -/
def Holds (mem : Mem) : Nat → List UInt8 → Prop
  | _, [] => True
  | addr, byte :: rest => mem addr = byte ∧ Holds mem (addr + 1) rest

/-- The string of `count` bytes at an address. -/
def readBytes (mem : Mem) (addr : Nat) : Nat → List UInt8
  | 0 => []
  | count + 1 => mem addr :: readBytes mem (addr + 1) count

/-- `for (i = 0; i < bytes.length; i++) dst[i] = bytes[i]`, from the first byte on. -/
def writeBytes (mem : Mem) (dst : Nat) : List UInt8 → Mem
  | [] => mem
  | byte :: rest => writeBytes (mem.store8 dst byte) (dst + 1) rest

/-- A memory that holds a string and is zero elsewhere. -/
def memoryAt (addr : Nat) (bytes : List UInt8) : Mem := fun place =>
  if addr ≤ place then bytes.getD (place - addr) 0 else 0

section Strings

variable {mem : Mem} {addr count value : Nat} {front back bytes : List UInt8}

theorem holds_append :
    Holds mem addr (front ++ back) ↔
      Holds mem addr front ∧ Holds mem (addr + front.length) back := by
  induction front generalizing addr with
  | nil => exact (and_iff_right trivial).symm
  | cons byte rest inductionHypothesis =>
      simp only [List.cons_append, Holds, inductionHypothesis, List.length_cons, and_assoc]
      rw [Nat.add_assoc, Nat.add_comm 1]

theorem Holds.byte {mem : Mem} {addr count value : Nat}
    (holds : Holds mem addr (littleEndian count value)) {index : Nat} (bound : index < count) :
    (mem (addr + index)).toNat = value / 256 ^ index % 256 := by
  induction count generalizing addr value index with
  | zero => omega
  | succ count inductionHypothesis =>
      rcases holds with ⟨head, tail⟩
      cases index with
      | zero =>
          rw [Nat.add_zero, head, UInt8.toNat_ofNat', Nat.pow_zero, Nat.div_one]
      | succ index =>
          have later := inductionHypothesis tail (Nat.lt_of_succ_lt_succ bound)
          rw [Nat.div_div_eq_div_mul, Nat.mul_comm, ← Nat.pow_succ] at later
          rw [← later, Nat.add_assoc, Nat.add_comm 1]

/-- A field reads back as the value that was laid out. -/
theorem Holds.load (holds : Holds mem addr (littleEndian count value)) :
    mem.load addr count = value % 256 ^ count :=
  Mem.load_of_digits fun _ bound => holds.byte bound

theorem Holds.load32 (holds : Holds mem addr (littleEndian 4 value)) (bound : value < 2 ^ 32) :
    mem.load32 addr = value :=
  holds.load.trans (Nat.mod_eq_of_lt bound)

theorem Holds.load64 (holds : Holds mem addr (littleEndian 8 value)) (bound : value < 2 ^ 64) :
    mem.load64 addr = value :=
  holds.load.trans (Nat.mod_eq_of_lt bound)

theorem holds_of_getD (same : ∀ index, index < bytes.length →
    mem (addr + index) = bytes.getD index 0) : Holds mem addr bytes := by
  induction bytes generalizing addr with
  | nil => trivial
  | cons byte rest inductionHypothesis =>
      refine ⟨same 0 (Nat.succ_pos _), inductionHypothesis fun index bound => ?_⟩
      rw [Nat.add_assoc, Nat.add_comm 1]
      exact same (index + 1) (Nat.succ_lt_succ bound)

theorem holds_memoryAt (addr : Nat) (bytes : List UInt8) :
    Holds (memoryAt addr bytes) addr bytes := by
  refine holds_of_getD fun index _ => ?_
  unfold memoryAt
  rw [if_pos (Nat.le_add_right _ _), Nat.add_sub_cancel_left]

theorem Holds.congr {other : Mem} (holds : Holds mem addr bytes)
    (same : ∀ place, addr ≤ place → place < addr + bytes.length → other place = mem place) :
    Holds other addr bytes := by
  induction bytes generalizing addr with
  | nil => trivial
  | cons byte rest inductionHypothesis =>
      rw [List.length_cons] at same
      refine ⟨(same addr (Nat.le_refl _) (by omega)).trans holds.1, ?_⟩
      exact inductionHypothesis holds.2 fun place low high => same place (by omega) (by omega)

theorem Holds.readBytes (holds : Holds mem addr bytes) :
    Machine.readBytes mem addr bytes.length = bytes := by
  induction bytes generalizing addr with
  | nil => rfl
  | cons byte rest inductionHypothesis =>
      rw [List.length_cons, Machine.readBytes, holds.1, inductionHypothesis holds.2]

theorem writeBytes_of_outside {place : Nat} (outside : place < addr ∨ addr + bytes.length ≤ place) :
    writeBytes mem addr bytes place = mem place := by
  induction bytes generalizing mem addr with
  | nil => rfl
  | cons byte rest inductionHypothesis =>
      rw [List.length_cons] at outside
      rw [writeBytes, inductionHypothesis (by omega)]
      exact Mem.store8_of_ne (by omega)

/-- A string that has been written is there. -/
theorem holds_writeBytes (mem : Mem) (addr : Nat) (bytes : List UInt8) :
    Holds (writeBytes mem addr bytes) addr bytes := by
  induction bytes generalizing mem addr with
  | nil => trivial
  | cons byte rest inductionHypothesis =>
      refine ⟨?_, inductionHypothesis _ _⟩
      rw [writeBytes, writeBytes_of_outside (Or.inl (Nat.lt_succ_self addr)), Mem.store8_self]

end Strings

end Machine
end AuraKernel
