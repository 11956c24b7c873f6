import Mathlib.Data.Nat.ModEq

namespace AuraKernel
namespace Machine

/-!
# A stream in blocks

The elements of a growing list are counted off in blocks of one size.  What is
behind the last boundary is the open block; the complete block in front of it is
what a device that reports once for each block has reported last.  Both are
given by what one more element does to them.
-/

section Blocks

variable {α : Type*} {size : Nat} {stream : List α}

/-- Where the last complete block ends. -/
def boundary (size : Nat) (stream : List α) : Nat := size * (stream.length / size)

/-- The elements behind the last complete block. -/
def openBlock (size : Nat) (stream : List α) : List α := stream.drop (boundary size stream)

/-- The last complete block, and nothing while there is none. -/
def lastBlock (size : Nat) (stream : List α) : List α :=
  (stream.take (boundary size stream)).drop (boundary size stream - size)

theorem boundary_le : boundary size stream ≤ stream.length := Nat.mul_div_le _ _

theorem length_openBlock : (openBlock size stream).length = stream.length % size := by
  have parts := Nat.div_add_mod stream.length size
  unfold openBlock boundary
  rw [List.length_drop]
  omega

theorem length_openBlock_lt (positive : 0 < size) : (openBlock size stream).length < size := by
  rw [length_openBlock]
  exact Nat.mod_lt _ positive

section Concat

variable {element : α}

/-- An element that does not fill the open block leaves the boundary where it is. -/
theorem boundary_concat (room : (openBlock size stream).length + 1 < size) :
    boundary size (stream ++ [element]) = boundary size stream := by
  rw [length_openBlock] at room
  unfold boundary
  rw [List.length_append, List.length_singleton, Nat.succ_div_of_not_dvd]
  intro divides
  have zero := Nat.mod_eq_zero_of_dvd divides
  rw [Nat.add_mod, Nat.mod_eq_of_lt (show 1 < size by omega), Nat.mod_eq_of_lt room] at zero
  omega

/-- An element that fills the open block moves the boundary behind it. -/
theorem boundary_concat_full (full : (openBlock size stream).length + 1 = size) :
    boundary size (stream ++ [element]) = boundary size stream + size := by
  rw [length_openBlock] at full
  have parts := Nat.div_add_mod stream.length size
  have divides : size ∣ stream.length + 1 := by
    refine ⟨stream.length / size + 1, ?_⟩
    rw [Nat.mul_add]
    omega
  unfold boundary
  rw [List.length_append, List.length_singleton, Nat.succ_div_of_dvd divides, Nat.mul_add,
    Nat.mul_one]

theorem openBlock_concat (room : (openBlock size stream).length + 1 < size) :
    openBlock size (stream ++ [element]) = openBlock size stream ++ [element] := by
  unfold openBlock
  rw [boundary_concat room, List.drop_append_of_le_length boundary_le]

theorem lastBlock_concat (room : (openBlock size stream).length + 1 < size) :
    lastBlock size (stream ++ [element]) = lastBlock size stream := by
  unfold lastBlock
  rw [boundary_concat room, List.take_append_of_le_length boundary_le]

/-- Where the last element fills the block, the boundary is the end of the stream. -/
theorem boundary_full (full : (openBlock size stream).length + 1 = size) :
    boundary size stream + size = (stream ++ [element]).length := by
  have behind : (openBlock size stream).length = stream.length - boundary size stream :=
    List.length_drop
  have le := @boundary_le _ size stream
  rw [List.length_append, List.length_singleton]
  omega

theorem openBlock_concat_full (full : (openBlock size stream).length + 1 = size) :
    openBlock size (stream ++ [element]) = [] := by
  unfold openBlock
  rw [boundary_concat_full full, boundary_full full, List.drop_length]

theorem lastBlock_concat_full (full : (openBlock size stream).length + 1 = size) :
    lastBlock size (stream ++ [element]) = openBlock size stream ++ [element] := by
  unfold lastBlock
  rw [boundary_concat_full full, Nat.add_sub_cancel, boundary_full full, List.take_length,
    List.drop_append_of_le_length boundary_le]
  rfl

end Concat

end Blocks

end Machine
end AuraKernel
