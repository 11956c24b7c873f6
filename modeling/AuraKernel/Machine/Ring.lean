import Mathlib.Data.List.Range
import Mathlib.Data.Nat.ModEq

namespace AuraKernel
namespace Machine

/-!
# Circular buffers

A circular buffer is seen here through two counters that only grow: how many
elements were written and how many were read.  The cell of an element is its
number modulo the size.  There are always fewer unread elements than cells, so
equal indices mean an empty buffer.
-/

/-- The elements that were written and not yet read, oldest first. -/
def ringContents {α : Type} (size : Nat) (cells : Nat → α) (read written : Nat) : List α :=
  (List.range' read (written - read)).map fun count => cells (count % size)

/-- Nothing is read before it is written, and one cell is empty. -/
structure RingCounts (size read written : Nat) : Prop where
  le : read ≤ written
  room : written < read + size

namespace RingCounts

variable {size read written : Nat}

theorem zero (positive : 0 < size) : RingCounts size 0 0 :=
  ⟨Nat.le_refl 0, by omega⟩

theorem index_eq_iff (counts : RingCounts size read written) :
    read % size = written % size ↔ read = written := by
  constructor
  · intro same
    have le := counts.le
    have room := counts.room
    have divides : size ∣ written - read := (Nat.modEq_iff_dvd' le).mp same
    have none := Nat.eq_zero_of_dvd_of_lt divides (by omega)
    omega
  · rintro rfl
    rfl

/-- The next element is written to a cell that no unread element is in. -/
theorem index_ne (counts : RingCounts size read written) {count : Nat} (low : read ≤ count)
    (high : count < written) : count % size ≠ written % size := by
  have room := counts.room
  have between : RingCounts size count written := ⟨Nat.le_of_lt high, by omega⟩
  exact fun same => Nat.ne_of_lt high (between.index_eq_iff.mp same)

/-- The write index is one behind the read index if and only if all but one of the cells
are taken. -/
theorem full_iff (counts : RingCounts size read written) :
    (written + 1) % size = read % size ↔ written + 1 = read + size := by
  have le := counts.le
  have room := counts.room
  constructor
  · intro same
    have divides : size ∣ written + 1 - read :=
      (Nat.modEq_iff_dvd' (Nat.le_succ_of_le le)).mp same.symm
    have atLeast := Nat.le_of_dvd (by omega) divides
    omega
  · intro full
    rw [full, Nat.add_mod_right]

theorem push (counts : RingCounts size read written) (notFull : written + 1 ≠ read + size) :
    RingCounts size read (written + 1) :=
  ⟨Nat.le_succ_of_le counts.le, Nat.lt_of_le_of_ne counts.room notFull⟩

theorem pop (counts : RingCounts size read written) (more : read < written) :
    RingCounts size (read + 1) written :=
  ⟨more, Nat.lt_of_lt_of_le counts.room (by omega)⟩

end RingCounts

section Contents

variable {α : Type} {size read written : Nat} {cells cells' : Nat → α}

theorem ringContents_length (size : Nat) (cells : Nat → α) (read written : Nat) :
    (ringContents size cells read written).length = written - read := by
  unfold ringContents
  rw [List.length_map, List.length_range']

theorem ringContents_congr
    (same : ∀ count, read ≤ count → count < written →
      cells' (count % size) = cells (count % size)) :
    ringContents size cells' read written = ringContents size cells read written := by
  unfold ringContents
  apply List.map_congr_left
  intro count member
  rw [List.mem_range'_1] at member
  exact same count member.1 (by omega)

/-- A write to the free cell at the write index adds one element at the end. -/
theorem ringContents_push (counts : RingCounts size read written)
    (same : ∀ index, index ≠ written % size → cells' index = cells index) :
    ringContents size cells' read (written + 1) =
      ringContents size cells read written ++ [cells' (written % size)] := by
  have le := counts.le
  have old : ringContents size cells' read written = ringContents size cells read written :=
    ringContents_congr fun count low high => same _ (counts.index_ne low high)
  rw [← old]
  unfold ringContents
  rw [Nat.succ_sub le, List.range'_concat, List.map_append, Nat.one_mul, Nat.add_sub_cancel' le]
  rfl

/-- The oldest element is in the cell at the read index. -/
theorem ringContents_pop (more : read < written) :
    ringContents size cells read written =
      cells (read % size) :: ringContents size cells (read + 1) written := by
  unfold ringContents
  rw [show written - read = written - (read + 1) + 1 by omega, List.range'_succ]
  rfl

end Contents

end Machine
end AuraKernel
