import Mathlib.Logic.Function.Basic

namespace AuraKernel
namespace Drivers

/-!
# The keyboard driver

`kernel/drivers/keyboard.c` passes characters from the interrupt handler to the
main loop through a ring of 32 cells.  The handler runs with interrupts masked,
so it is one step here.  The two functions of the main loop are not, and the
three variables they share with the handler are volatile: every access is a
step of its own, and the handler may run between any two of them.
-/

def kbdBufSize : Int := 32

/-- The entries of `scancode_ascii` up to the last that is written out; the rest are 0. -/
def scancodeAscii : List UInt8 :=
  [0, 27] ++ ['1', '2', '3', '4', '5', '6', '7', '8'].map Char.toUInt8 ++ -- 0x00 - 0x09
  ['9', '0', '-', '='].map Char.toUInt8 ++ [8] ++ -- 0x0A - 0x0E
  [9] ++ ['q', 'w', 'e', 'r', 't', 'y', 'u', 'i', 'o'].map Char.toUInt8 ++ -- 0x0F - 0x18
  ['p', '[', ']'].map Char.toUInt8 ++ [10, 0] ++ -- 0x19 - 0x1D
  ['a', 's', 'd', 'f', 'g', 'h', 'j', 'k', 'l', ';'].map Char.toUInt8 ++ -- 0x1E - 0x27
  [39, 96, 0, 92] ++ ['z', 'x', 'c', 'v', 'b', 'n'].map Char.toUInt8 ++ -- 0x28 - 0x31
  ['m', ',', '.', '/'].map Char.toUInt8 ++ [0, 42] ++ -- 0x32 - 0x37
  [0, 32, 0] -- 0x38 - 0x3A

def scancodeChar (scancode : UInt8) : UInt8 := scancodeAscii.getD scancode.toNat 0

/-- `kbd_buf`, `kbd_head` and `kbd_tail` -/
structure Kbd where
  buf : Int → UInt8
  head : Int
  tail : Int

/-- `keyboard_init`, whatever the cells hold -/
def keyboardInit (buf : Int → UInt8) : Kbd := { buf := buf, head := 0, tail := 0 }

/-- `keyboard_handler` with the scancode it reads from the port -/
def keyboardHandler (scancode : UInt8) (k : Kbd) : Kbd :=
  -- Ignore break codes (bit 7 set)
  if scancode &&& 0x80 ≠ 0 then k
  else if scancode < 128 then
    let c := scancodeChar scancode
    if c ≠ 0 then
      let next := (k.head + 1).tmod kbdBufSize
      if next ≠ k.tail then { k with buf := Function.update k.buf k.head c, head := next }
      else k
    else k
  else k

/-! ## The main loop -/

/-- The two functions of the main loop. -/
inductive Call
  | getchar
  | hasKey
deriving DecidableEq, Repr

/-- Between which two accesses the main loop is, with the values it has read.  The operands
of the first comparison may be read in either order. -/
inductive Pc
  | idle
  | tailFirst (call : Call) (tail : Int)
  | headFirst (call : Call) (head : Int)
  | nonEmpty
  | index (tail : Int)
  | cell (c : UInt8)
  | advance (c : UInt8) (tail : Int)
deriving DecidableEq, Repr

/-- `keyboard_getchar` goes on if the indices differ; in the other cases the function returns. -/
def compared (call : Call) (tail head : Int) : Pc :=
  match call with
  | .getchar => if tail = head then .idle else .nonEmpty
  | .hasKey => .idle

/-- The driver with the characters that the handler has stored and those that
`keyboard_getchar` has returned. -/
structure System where
  kbd : Kbd
  pc : Pc
  accepted : List UInt8
  returned : List UInt8

/-- The character that the handler stores: it has done so when it has moved the head. -/
def stored (scancode : UInt8) (k : Kbd) : List UInt8 :=
  if (keyboardHandler scancode k).head = k.head then [] else [scancodeChar scancode]

/-- One interrupt, or one access of the main loop. -/
inductive System.Step : System → System → Prop
  | irq {s : System} (scancode : UInt8) :
      Step s { s with
        kbd := keyboardHandler scancode s.kbd
        accepted := s.accepted ++ stored scancode s.kbd }
  | tailFirst {s : System} (call : Call) (here : s.pc = .idle) :
      Step s { s with pc := .tailFirst call s.kbd.tail }
  | headFirst {s : System} (call : Call) (here : s.pc = .idle) :
      Step s { s with pc := .headFirst call s.kbd.head }
  | thenHead {s : System} {call : Call} {tail : Int} (here : s.pc = .tailFirst call tail) :
      Step s { s with pc := compared call tail s.kbd.head }
  | thenTail {s : System} {call : Call} {head : Int} (here : s.pc = .headFirst call head) :
      Step s { s with pc := compared call s.kbd.tail head }
  | readIndex {s : System} (here : s.pc = .nonEmpty) :
      Step s { s with pc := .index s.kbd.tail }
  | readCell {s : System} {tail : Int} (here : s.pc = .index tail) :
      Step s { s with pc := .cell (s.kbd.buf tail) }
  | readTail {s : System} {c : UInt8} (here : s.pc = .cell c) :
      Step s { s with pc := .advance c s.kbd.tail }
  | writeTail {s : System} {c : UInt8} {tail : Int} (here : s.pc = .advance c tail) :
      Step s { s with
        kbd := { s.kbd with tail := (tail + 1).tmod kbdBufSize }
        pc := .idle
        returned := s.returned ++ [c] }

/-- The driver after `keyboard_init`. -/
def System.init (buf : Int → UInt8) : System :=
  { kbd := keyboardInit buf, pc := .idle, accepted := [], returned := [] }

end Drivers
end AuraKernel
