import AuraKernel.Machine.Words
import Mathlib.Data.Set.Function

namespace AuraKernel
namespace Machine

/-!
# Byte-addressed memory with little-endian words

Every component of the kernel keeps its metadata in the memory it manages:
block headers, free-list links, page-table entries, saved stack frames.  The
memory is therefore one total map from addresses to bytes.  Words are read and
written little-endian, and the lemmas say what a later read sees of an earlier
write: the value itself at the same place, the old word at a disjoint one.
-/

/-- Physical memory: one byte at every address. -/
abbrev Mem : Type := Nat → UInt8

namespace Mem

/-- The unsigned value of the `count` bytes at `addr`, least significant first. -/
def load (mem : Mem) (addr : Nat) : Nat → Nat
  | 0 => 0
  | count + 1 => (mem addr).toNat + 256 * load mem (addr + 1) count

/-- Store the low `count` bytes of `value` at `addr`, least significant first. -/
def store (mem : Mem) (addr count value : Nat) : Mem := fun place =>
  if addr ≤ place ∧ place < addr + count then
    UInt8.ofNat (value / 256 ^ (place - addr))
  else mem place

def store8 (mem : Mem) (addr : Nat) (value : UInt8) : Mem := fun place =>
  if place = addr then value else mem place

def load32 (mem : Mem) (addr : Nat) : Nat := mem.load addr 4
def load64 (mem : Mem) (addr : Nat) : Nat := mem.load addr 8
def store32 (mem : Mem) (addr value : Nat) : Mem := mem.store addr 4 value
def store64 (mem : Mem) (addr value : Nat) : Mem := mem.store addr 8 value

/-! ## Bytes outside a store -/

theorem store_apply_of_outside {mem : Mem} {addr count value place : Nat}
    (outside : place < addr ∨ addr + count ≤ place) :
    mem.store addr count value place = mem place := by
  unfold store
  rw [if_neg (by omega)]

theorem store64_apply_of_outside {mem : Mem} {addr value place : Nat}
    (outside : place < addr ∨ addr + 8 ≤ place) : mem.store64 addr value place = mem place :=
  store_apply_of_outside outside

theorem store32_apply_of_outside {mem : Mem} {addr value place : Nat}
    (outside : place < addr ∨ addr + 4 ≤ place) : mem.store32 addr value place = mem place :=
  store_apply_of_outside outside

@[simp] theorem store8_self (mem : Mem) (addr : Nat) (value : UInt8) :
    mem.store8 addr value addr = value := by
  simp only [store8, if_true]

theorem store8_of_ne {mem : Mem} {addr place : Nat} {value : UInt8} (different : place ≠ addr) :
    mem.store8 addr value place = mem place := by
  simp only [store8, if_neg different]

/-! ## Words -/

theorem load_lt (mem : Mem) (addr count : Nat) : mem.load addr count < 256 ^ count := by
  induction count generalizing addr with
  | zero => exact Nat.one_pos
  | succ count inductionHypothesis =>
      have tail := inductionHypothesis (addr + 1)
      have head := (mem addr).toNat_lt
      simp only [load, Nat.pow_succ]
      omega

theorem load64_lt (mem : Mem) (addr : Nat) : mem.load64 addr < 2 ^ 64 :=
  mem.load_lt addr 8

theorem load32_lt (mem : Mem) (addr : Nat) : mem.load32 addr < 2 ^ 32 :=
  mem.load_lt addr 4

/-- A word depends only on its own bytes. -/
theorem load_congr {first second : Mem} {addr count : Nat}
    (agree : ∀ place, addr ≤ place → place < addr + count → first place = second place) :
    first.load addr count = second.load addr count := by
  induction count generalizing addr with
  | zero => rfl
  | succ count inductionHypothesis =>
      have tail : first.load (addr + 1) count = second.load (addr + 1) count :=
        inductionHypothesis (fun place low high => agree place (by omega) (by omega))
      simp only [load, agree addr (by omega) (by omega), tail]

theorem load64_congr {first second : Mem} {addr : Nat}
    (agree : ∀ place, addr ≤ place → place < addr + 8 → first place = second place) :
    first.load64 addr = second.load64 addr :=
  load_congr agree

/-- Bytes that are the base-256 digits of `value` read back as `value`. -/
theorem load_of_digits {mem : Mem} {addr count value : Nat}
    (digits : ∀ index, index < count → (mem (addr + index)).toNat = value / 256 ^ index % 256) :
    mem.load addr count = value % 256 ^ count := by
  induction count generalizing addr value with
  | zero => simp only [load, Nat.pow_zero, Nat.mod_one]
  | succ count inductionHypothesis =>
      have head : (mem addr).toNat = value % 256 := by
        simpa using digits 0 (Nat.succ_pos count)
      have tail : mem.load (addr + 1) count = value / 256 % 256 ^ count := by
        apply inductionHypothesis
        intro index bound
        have digit := digits (index + 1) (by omega)
        rw [Nat.pow_succ, Nat.mul_comm, ← Nat.div_div_eq_div_mul] at digit
        rw [Nat.add_assoc, Nat.add_comm 1 index]
        exact digit
      rw [load, head, tail, Nat.pow_succ, Nat.mul_comm (256 ^ count), Nat.mod_mul]

theorem load_store_same (mem : Mem) (addr count value : Nat) :
    (mem.store addr count value).load addr count = value % 256 ^ count := by
  apply load_of_digits
  intro index bound
  unfold store
  rw [if_pos (by omega), Nat.add_sub_cancel_left, UInt8.toNat_ofNat']

theorem load_store_disjoint {mem : Mem} {addr count value other width : Nat}
    (apart : other + width ≤ addr ∨ addr + count ≤ other) :
    (mem.store addr count value).load other width = mem.load other width :=
  load_congr (fun _ _ _ => store_apply_of_outside (by omega))

@[simp] theorem load64_store64_same (mem : Mem) (addr value : Nat) :
    (mem.store64 addr value).load64 addr = wrap64 value := by
  unfold wrap64
  exact mem.load_store_same addr 8 value

@[simp] theorem load32_store32_same (mem : Mem) (addr value : Nat) :
    (mem.store32 addr value).load32 addr = wrap32 value := by
  unfold wrap32
  exact mem.load_store_same addr 4 value

theorem load64_store64_disjoint {mem : Mem} {addr value other : Nat}
    (apart : other + 8 ≤ addr ∨ addr + 8 ≤ other) :
    (mem.store64 addr value).load64 other = mem.load64 other :=
  load_store_disjoint apart

theorem load32_store32_disjoint {mem : Mem} {addr value other : Nat}
    (apart : other + 4 ≤ addr ∨ addr + 4 ≤ other) :
    (mem.store32 addr value).load32 other = mem.load32 other :=
  load_store_disjoint apart

theorem load64_store8_disjoint {mem : Mem} {addr other : Nat} {value : UInt8}
    (apart : other + 8 ≤ addr ∨ addr < other) :
    (mem.store8 addr value).load64 other = mem.load64 other :=
  load_congr (fun _ _ _ => store8_of_ne (by omega))

/-- The low part of a word, then the high part. -/
theorem load_add (mem : Mem) (addr low high : Nat) :
    mem.load addr (low + high) = mem.load addr low + 256 ^ low * mem.load (addr + low) high := by
  induction low generalizing addr with
  | zero => simp only [load, Nat.zero_add, Nat.pow_zero, Nat.one_mul, Nat.add_zero]
  | succ low inductionHypothesis =>
      rw [Nat.add_right_comm, load, inductionHypothesis, load, Nat.pow_succ,
        Nat.add_assoc addr 1 low,
        Nat.add_comm 1 low]
      ring

theorem load64_eq_load32 (mem : Mem) (addr : Nat) :
    mem.load64 addr = mem.load32 addr + 2 ^ 32 * mem.load32 (addr + 4) :=
  mem.load_add addr 4 4

theorem load_of_zero {mem : Mem} {addr count : Nat}
    (zero : ∀ place, addr ≤ place → place < addr + count → mem place = 0) :
    mem.load addr count = 0 := by
  induction count generalizing addr with
  | zero => rfl
  | succ count inductionHypothesis =>
      rw [load, zero addr (by omega) (by omega),
        inductionHypothesis fun place low high => zero place (by omega) (by omega)]
      rfl

/-- Bit `index` of a word is bit `index % 8` of its byte `index / 8`. -/
theorem testBit_load {mem : Mem} {addr count index : Nat} (bound : index < 8 * count) :
    (mem.load addr count).testBit index =
      (mem (addr + index / 8)).toNat.testBit (index % 8) := by
  induction count generalizing addr index with
  | zero => omega
  | succ count inductionHypothesis =>
      have byte : (mem addr).toNat < 2 ^ 8 := (mem addr).toNat_lt
      rw [load, Nat.add_comm, show (256 : Nat) = 2 ^ 8 from rfl,
        Nat.testBit_two_pow_mul_add _ byte]
      by_cases low : index < 8
      · rw [if_pos low, Nat.div_eq_of_lt low, Nat.mod_eq_of_lt low, Nat.add_zero]
      · rw [if_neg low, inductionHypothesis (by omega)]
        have quotient : addr + 1 + (index - 8) / 8 = addr + index / 8 := by omega
        have remainder : (index - 8) % 8 = index % 8 := by omega
        rw [quotient, remainder]

/-! ## Byte loops -/

/-- `for (i = 0; i < count; i++) dst[i] = value`. -/
def fill (mem : Mem) (dst : Nat) (value : UInt8) : Nat → Mem
  | 0 => mem
  | count + 1 => (mem.fill dst value count).store8 (dst + count) value

theorem fill_apply (mem : Mem) (dst : Nat) (value : UInt8) (count place : Nat) :
    mem.fill dst value count place =
      if dst ≤ place ∧ place < dst + count then value else mem place := by
  induction count with
  | zero => rw [fill, if_neg (by omega)]
  | succ count inductionHypothesis =>
      rw [fill, store8]
      by_cases last : place = dst + count
      · rw [if_pos last, if_pos (by omega)]
      · rw [if_neg last, inductionHypothesis]
        by_cases inside : dst ≤ place ∧ place < dst + count
        · rw [if_pos inside, if_pos (by omega)]
        · rw [if_neg inside, if_neg (by omega)]

/-- `for (i = 0; i < count; i++) dst[i] = src[i]`, a byte at a time. -/
def copy (mem : Mem) (dst src : Nat) : Nat → Mem
  | 0 => mem
  | count + 1 =>
      let before := mem.copy dst src count
      before.store8 (dst + count) (before (src + count))

@[simp] theorem copy_zero (mem : Mem) (dst src : Nat) : mem.copy dst src 0 = mem := rfl

theorem copy_succ (mem : Mem) (dst src count : Nat) :
    mem.copy dst src (count + 1) =
      (mem.copy dst src count).store8 (dst + count) (mem.copy dst src count (src + count)) := rfl

theorem copy_apply_of_outside {mem : Mem} {dst src count place : Nat}
    (outside : place < dst ∨ dst + count ≤ place) : mem.copy dst src count place = mem place := by
  induction count with
  | zero => rfl
  | succ count inductionHypothesis =>
      rw [copy, store8_of_ne (by omega), inductionHypothesis (by omega)]

/-- Between disjoint ranges the loop copies the source as it was. -/
theorem copy_apply {mem : Mem} {dst src count index : Nat} (bound : index < count)
    (apart : dst + count ≤ src ∨ src + count ≤ dst) :
    mem.copy dst src count (dst + index) = mem (src + index) := by
  induction count with
  | zero => omega
  | succ count inductionHypothesis =>
      rw [copy]
      by_cases last : index = count
      · subst last
        rw [store8_self, copy_apply_of_outside (by omega)]
      · rw [store8_of_ne (by omega), inductionHypothesis (by omega) (by omega)]

-- The lemmas above are the interface; unfolding words into bytes never helps a client.
attribute [irreducible] load store fill copy

end Mem

end Machine
end AuraKernel
