import AuraKernel.Machine.BoundedArray

namespace AuraKernel
namespace Drivers

open Machine

/-!
# The text console

`kernel/drivers/vga.c` prints into the text buffer of the display, 25 rows of
80 cells, and keeps the position of the next character in two static variables.
A function has no result here if it writes outside the buffer.
-/

def vgaWidth : Nat := 80

def vgaHeight : Nat := 25

/-- The number of cells of `VGA_MEMORY` -/
def vgaCells : Nat := 2000

def newlineChar : UInt8 := 10

def spaceChar : UInt8 := 32

/-- The static variables of `vga.c`, and the buffer. -/
structure Vga where
  memory : Nat → UInt16
  row : Nat
  col : Nat
  color : UInt8

def vgaEntryColor (fg bg : UInt8) : UInt8 := (bg <<< 4) ||| (fg &&& 0x0F)

def vgaEntry (uc color : UInt8) : UInt16 := uc.toUInt16 ||| (color.toUInt16 <<< 8)

def vgaSetColor (fg bg : UInt8) (v : Vga) : Vga := { v with color := vgaEntryColor fg bg }

def vgaClear (v : Vga) : Option Vga := do
  let memory ← forRange 0 vgaHeight (fun y memory =>
    forRange 0 vgaWidth (fun x memory =>
      storeAt vgaCells memory (y * vgaWidth + x) (vgaEntry spaceChar v.color)) memory) v.memory
  some { v with memory := memory, row := 0, col := 0 }

def vgaScroll (v : Vga) : Option Vga := do
  -- Move every line up by one
  let memory ← forRange 1 (vgaHeight - 1) (fun y memory =>
    forRange 0 vgaWidth (fun x memory => do
      let cell ← loadAt vgaCells memory (y * vgaWidth + x)
      storeAt vgaCells memory ((y - 1) * vgaWidth + x) cell) memory) v.memory
  -- Clear the last line
  let memory ← forRange 0 vgaWidth (fun x memory =>
    storeAt vgaCells memory ((vgaHeight - 1) * vgaWidth + x) (vgaEntry spaceChar v.color)) memory
  some { v with memory := memory, row := vgaHeight - 1 }

def vgaNewline (v : Vga) : Option Vga := do
  let v : Vga := { v with col := 0, row := v.row + 1 }
  if v.row ≥ vgaHeight then
    let v ← vgaScroll v
    some { v with row := vgaHeight - 1 }
  else some v

def vgaPutc (c : UInt8) (v : Vga) : Option Vga :=
  if c = newlineChar then vgaNewline v
  else do
    let memory ← storeAt vgaCells v.memory (v.row * vgaWidth + v.col) (vgaEntry c v.color)
    let v : Vga := { v with memory := memory, col := v.col + 1 }
    if v.col ≥ vgaWidth then vgaNewline v else some v

/-- `vga_puts` of the characters up to the NUL -/
def vgaPuts : List UInt8 → Vga → Option Vga
  | [], v => some v
  | c :: str, v => (vgaPutc c v).bind (vgaPuts str)

/-! ## The loops -/

section Loops

variable {memory : Nat → UInt16} {cell : UInt16}

theorem fillRow_eq {y : Nat} (inside : y < vgaHeight) :
    forRange 0 vgaWidth (fun x memory => storeAt vgaCells memory (y * vgaWidth + x) cell) memory =
      some (patch (y * vgaWidth) (y * vgaWidth + vgaWidth) (fun _ => cell) memory) := by
  rcases @forRange_rule _ (fun x filled => filled =
      patch (y * vgaWidth) (y * vgaWidth + x) (fun _ => cell) memory)
    (fun x memory => storeAt vgaCells memory (y * vgaWidth + x) cell) 0 vgaWidth memory
    patch_empty.symm (by
      rintro x filled - less rfl
      refine ⟨_, storeAt_of_lt ?_, update_patch (Nat.le_add_right _ _)⟩
      unfold vgaHeight vgaWidth vgaCells at *
      omega) with ⟨filled, ran, rfl⟩
  rw [ran, Nat.zero_add]

/-- One row is moved up.  The cells that are read have not been written yet. -/
theorem moveRow_eq {y : Nat} (positive : 1 ≤ y) (inside : y < vgaHeight) :
    forRange 0 vgaWidth (fun x memory => do
        let cell ← loadAt vgaCells memory (y * vgaWidth + x)
        storeAt vgaCells memory ((y - 1) * vgaWidth + x) cell)
      (patch 0 ((y - 1) * vgaWidth) (fun k => memory (k + vgaWidth)) memory) =
      some (patch 0 (y * vgaWidth) (fun k => memory (k + vgaWidth)) memory) := by
  have above : y * vgaWidth = (y - 1) * vgaWidth + vgaWidth := by
    unfold vgaWidth
    omega
  rcases @forRange_rule _ (fun x moved => moved =
      patch 0 ((y - 1) * vgaWidth + x) (fun k => memory (k + vgaWidth)) memory)
    (fun x memory => do
      let cell ← loadAt vgaCells memory (y * vgaWidth + x)
      storeAt vgaCells memory ((y - 1) * vgaWidth + x) cell) 0 vgaWidth _ rfl (by
      rintro x moved - less rfl
      have bound : y * vgaWidth + x < vgaCells := by
        unfold vgaHeight vgaWidth vgaCells at *
        omega
      have unread : patch 0 ((y - 1) * vgaWidth + x) (fun k => memory (k + vgaWidth)) memory
          (y * vgaWidth + x) = memory ((y - 1) * vgaWidth + x + vgaWidth) := by
        rw [patch_outside (by omega), above, Nat.add_right_comm]
      refine ⟨_, ?_, update_patch (Nat.zero_le _)⟩
      simp only [loadAt_of_lt bound, Option.bind_eq_bind, Option.bind_some, unread]
      exact storeAt_of_lt (by omega)) with ⟨moved, ran, rfl⟩
  refine ran.trans ?_
  rw [Nat.zero_add, ← above]

theorem vgaClear_eq (v : Vga) :
    vgaClear v = some { v with
      memory := patch 0 vgaCells (fun _ => vgaEntry spaceChar v.color) v.memory
      row := 0
      col := 0 } := by
  rcases @forRange_rule _ (fun y memory => memory =
      patch 0 (y * vgaWidth) (fun _ => vgaEntry spaceChar v.color) v.memory)
    (fun y memory => forRange 0 vgaWidth (fun x memory =>
      storeAt vgaCells memory (y * vgaWidth + x) (vgaEntry spaceChar v.color)) memory)
    0 vgaHeight v.memory (by rw [Nat.zero_mul, patch_empty]) (by
      rintro y memory - less rfl
      rw [Nat.zero_add] at less
      refine ⟨_, fillRow_eq less, ?_⟩
      rw [patch_patch (Nat.zero_le _) (Nat.le_add_right _ _), Nat.succ_mul]) with
    ⟨memory, ran, rfl⟩
  unfold vgaClear
  rw [ran]
  rfl

/-- All rows move up, and the last one is filled. -/
theorem vgaScroll_eq (v : Vga) :
    vgaScroll v = some { v with
      memory := patch 1920 vgaCells (fun _ => vgaEntry spaceChar v.color)
        (patch 0 1920 (fun k => v.memory (k + vgaWidth)) v.memory)
      row := 24 } := by
  rcases @forRange_rule _ (fun y memory => memory =
      patch 0 ((y - 1) * vgaWidth) (fun k => v.memory (k + vgaWidth)) v.memory)
    (fun y memory => forRange 0 vgaWidth (fun x memory => do
      let cell ← loadAt vgaCells memory (y * vgaWidth + x)
      storeAt vgaCells memory ((y - 1) * vgaWidth + x) cell) memory)
    1 (vgaHeight - 1) v.memory (by rw [Nat.sub_self, Nat.zero_mul, patch_empty]) (by
      rintro y memory positive less rfl
      exact ⟨_, moveRow_eq positive less, rfl⟩) with ⟨memory, ran, rfl⟩
  unfold vgaScroll
  rw [ran]
  simp only [Option.bind_eq_bind, Option.bind_some]
  rw [fillRow_eq (by decide : vgaHeight - 1 < vgaHeight)]
  rfl

end Loops

end Drivers
end AuraKernel
