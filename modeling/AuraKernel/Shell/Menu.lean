import AuraKernel.Drivers.Printf
import Mathlib.Logic.Function.Basic

namespace AuraKernel
namespace Shell

open Drivers

/-!
# The command shell

`kernel/core/menu.c` edits a line of up to 63 characters in a static buffer and
executes it when Enter is pressed.  Two of the commands raise a fault on
purpose.  The fault handler shows the panic screen of `kernel/core/panic.c`,
which reads keys itself and on [R] jumps back to the recovery point in
`kernel_main`, in front of the polling loop: `execute_command` and
`menu_handle_key` do not return.

What is drawn on the screen does not flow back into the shell, so the calls
that render it are left out.
-/

def cmdMax : Nat := 64

def logLines : Nat := 8

inductive View
  | menu
  | dashboard
deriving DecidableEq, Repr

/-- The static variables of `menu.c`. -/
structure Menu where
  cmdBuf : Nat → UInt8
  cmdLen : Nat
  logHistory : Nat → Nat → UInt8
  logCount : Nat
  activeView : View

/-- What the command `mem` reads from `sysmon_get_stats` and `zram_get_stats`. -/
structure Stats where
  ramUsedKb : Nat
  ramTotalKb : Nat
  compressionRatioX100 : Nat

def ascii (text : String) : List UInt8 := text.toList.map Char.toUInt8

/-- The C string in an array of `size` characters. -/
def cString (size : Nat) (array : Nat → UInt8) : List UInt8 :=
  ((List.range size).map array).takeWhile (· ≠ 0)

/-! ## The log -/

/-- `while (msg[i] && i < 78)` with the NUL behind it, in one row of the history. -/
def copyRow (msg : List UInt8) (row : Nat → UInt8) : Nat → UInt8 := fun col =>
  if col < min msg.length 78 then msg.getD col 0
  else if col = min msg.length 78 then 0
  else row col

def logPrint (msg : List UInt8) (s : Menu) : Menu :=
  if s.logCount < logLines then
    { s with
      logHistory := Function.update s.logHistory s.logCount (copyRow msg (s.logHistory s.logCount))
      logCount := s.logCount + 1 }
  else
    -- Scroll history
    let scrolled := fun row => if row < logLines - 1 then s.logHistory (row + 1) else s.logHistory row
    { s with
      logHistory :=
        Function.update scrolled (logLines - 1) (copyRow msg (scrolled (logLines - 1))) }

def strEq : List UInt8 → List UInt8 → Bool
  | a :: as, b :: bs => if a ≠ b then false else strEq as bs
  | [], [] => true
  | _, _ => false

/-- `menu_init`, whatever the arrays hold -/
def menuInit (cmdBuf : Nat → UInt8) (logHistory : Nat → Nat → UInt8) : Menu :=
  let s : Menu :=
    { cmdBuf := Function.update cmdBuf 0 0
      cmdLen := 0
      logHistory := logHistory
      logCount := 0
      activeView := .menu }
  let s := logPrint (ascii "AuraOS Command Shell ready.") s
  logPrint (ascii "Type 'help' for commands, or 'dashboard' for btop view.") s

/-! ## Commands -/

/-- The digits of a 32-bit number in the output of `mem`. -/
def number (v : Nat) : List UInt8 := (putDigits (vgaDigits decimal digitFuel v)).chars

/-- The line of `mem` about the frame manager. -/
def pmmLine (stats : Stats) : List UInt8 :=
  ascii "  PMM RAM: " ++ number (stats.ramUsedKb / 1024) ++ ascii "/" ++
    number (stats.ramTotalKb / 1024) ++ ascii " MB"

/-- The line of `mem` about the compressor. -/
def zramLine (stats : Stats) : List UInt8 :=
  ascii "  zRAM: " ++ number (stats.compressionRatioX100 / 100) ++ ascii "." ++
    [zeroChar + UInt8.ofNat (stats.compressionRatioX100 % 100 / 10)] ++ ascii "x ratio"

/-- How a function of the shell ends: it returns, it raises a fault that is never returned
from, or it halts the machine. -/
inductive Outcome
  | returned (s : Menu)
  | faulted (s : Menu)
  | halted (s : Menu)

def executeCommand (stats : Stats) (cmd : List UInt8) (s : Menu) : Outcome :=
  if cmd = [] then .returned s
  else if strEq cmd (ascii "help") then
    let s := logPrint (ascii "Commands:") s
    let s := logPrint (ascii "  info      - system & hardware status") s
    let s := logPrint (ascii "  mem       - physical memory, heap & zram stats") s
    let s := logPrint (ascii "  clear     - clear output log") s
    let s := logPrint (ascii "  dashboard - switch to full btop TUI dashboard") s
    let s := logPrint (ascii "  panic     - test kernel panic handler") s
    let s := logPrint (ascii "  pf        - test page fault handler (write to 0xdead0000)") s
    .returned (logPrint (ascii "  halt      - halt CPU safely") s)
  else if strEq cmd (ascii "info") then
    let s := logPrint (ascii "[AuraOS v0.2.3] x86_64 freestanding C kernel") s
    .returned (logPrint (ascii "Console: VGA 80x25 @ 0xB8000 + COM1 UART 115200") s)
  else if strEq cmd (ascii "mem") then
    let s := logPrint (pmmLine stats) s
    let s := logPrint (ascii "  Kernel Heap: 4 MB pool (free-list allocator)") s
    .returned (logPrint (zramLine stats) s)
  else if strEq cmd (ascii "clear") then .returned { s with logCount := 0 }
  else if strEq cmd (ascii "dashboard") then .returned { s with activeView := .dashboard }
  else if strEq cmd (ascii "halt") then .halted (logPrint (ascii "System halted.") s)
  else if strEq cmd (ascii "panic") then
    -- ud2
    .faulted s
  else if strEq cmd (ascii "pf") then
    -- the write to 0xdead0000
    .faulted (logPrint (ascii "Triggering page fault (write to 0xdead0000)...") s)
  else .returned (logPrint (ascii "Unknown command. Type 'help' for list.") s)

/-! ## Keys -/

def newline : UInt8 := 10
def carriageReturn : UInt8 := 13
def backspace : UInt8 := 8
def escape : UInt8 := 27

def IsEnter (c : UInt8) : Prop := c = newline ∨ c = carriageReturn

instance (c : UInt8) : Decidable (IsEnter c) := inferInstanceAs (Decidable (_ ∨ _))

/-- The command that Enter executes: the line buffer closed at its length. -/
def commandOf (s : Menu) : List UInt8 := cString cmdMax (Function.update s.cmdBuf s.cmdLen 0)

def menuHandleKey (stats : Stats) (c : UInt8) (s : Menu) : Outcome :=
  match s.activeView with
  | .dashboard =>
      if c = 113 ∨ c = 81 ∨ c = escape then .returned { s with activeView := .menu }
      else .returned s
  | .menu =>
      if IsEnter c then
        let cmd := commandOf s
        let s := { s with cmdBuf := Function.update s.cmdBuf s.cmdLen 0 }
        let s := logPrint (ascii "> " ++ cmd.take 70) s
        match executeCommand stats cmd s with
        | .returned s => .returned { s with cmdLen := 0, cmdBuf := Function.update s.cmdBuf 0 0 }
        | .faulted s => .faulted s
        | .halted s => .halted s
      else if c = backspace then
        if s.cmdLen > 0 then
          .returned { s with
            cmdLen := s.cmdLen - 1
            cmdBuf := Function.update s.cmdBuf (s.cmdLen - 1) 0 }
        else .returned s
      else if 32 ≤ c ∧ c ≤ 126 then
        if s.cmdLen < cmdMax - 1 then
          .returned { s with
            cmdBuf := Function.update (Function.update s.cmdBuf s.cmdLen c) (s.cmdLen + 1) 0
            cmdLen := s.cmdLen + 1 }
        else .returned s
      else .returned s

/-! ## The panic screen and the polling loop -/

/-- `panic_do_restore` with a valid recovery point, up to the jump -/
def panicDoRestore (s : Menu) : Menu :=
  logPrint (ascii "[RECOVERED] System state successfully restored after panic") s

/-- Who reads the keys: the loop of `kernel_main`, the loop of `aura_panic_interactive`, or
nobody any more. -/
inductive Mode
  | polling
  | panicking
  | stopped
deriving DecidableEq, Repr

/-- The shell with the field `recovery_point.valid`. -/
structure System where
  menu : Menu
  mode : Mode
  recoveryValid : Bool

/-- A key in `kernel_main`. -/
def System.polledKey (stats : Stats) (c : UInt8) (sys : System) : System :=
  match menuHandleKey stats c sys.menu with
  | .returned s => { sys with menu := s }
  | .faulted s => { sys with menu := s, mode := .panicking }
  | .halted s => { sys with menu := s, mode := .stopped }

/-- A key in `aura_panic_interactive`. -/
def System.panicKey (c : UInt8) (sys : System) : System :=
  if c = 114 ∨ c = 82 then
    if sys.recoveryValid then { sys with menu := panicDoRestore sys.menu, mode := .polling }
    else sys
  else if c = 98 ∨ c = 66 then { sys with mode := .stopped }
  else if c = 111 ∨ c = 79 ∨ c = 112 ∨ c = 80 then { sys with mode := .stopped }
  else sys

/-- A key wherever it is read. -/
def System.key (stats : Stats) (c : UInt8) (sys : System) : System :=
  match sys.mode with
  | .polling => sys.polledKey stats c
  | .panicking => sys.panicKey c
  | .stopped => sys

/-- `kernel_main` in front of its polling loop -/
def System.init (cmdBuf : Nat → UInt8) (logHistory : Nat → Nat → UInt8) : System :=
  { menu := menuInit cmdBuf logHistory, mode := .polling, recoveryValid := true }

end Shell
end AuraKernel
