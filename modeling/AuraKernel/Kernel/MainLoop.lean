import AuraKernel.Drivers.Keyboard
import AuraKernel.Shell.Menu
import AuraKernel.Telemetry.Sysmon
import Mathlib.Logic.Relation

namespace AuraKernel
namespace Kernel

open Machine
open Drivers (Kbd keyboardHandler stored)
open Shell (Menu Mode Stats IsEnter commandOf newline carriageReturn menuInit)
open Telemetry (Sysmon sysmonInit sysmonTick sysmonSetIdle)

/-!
# The main loop

The end of `kernel_main`, from `sti` on: the two waits for the timer, the start of
the shell, and the loop that polls the keyboard and the serial port, redraws the
screen and halts the CPU.  Meanwhile the timer and the keyboard interrupt it, and
bytes arrive at the serial port.

Every access to a variable that an interrupt handler writes is a step of its own,
and an interrupt may come between any two steps.  A command that faults takes the
CPU to the panic screen with interrupts disabled; from there [R] leads back to the
statement behind `panic_set_recovery_point`.
-/

/-- Where `kernel_main` is, with the values of its local variables. -/
inductive Place
  | readStart
  | verify (startTicks : Nat)
  | readWait
  | wait (waitTicks : Nat)
  | initMenu
  | checkpoint
  | readRefresh
  | hasKey
  | getchar
  | pressed (c : UInt8)
  | hasChar
  | getc
  | data
  | typed (c : UInt8)
  | readNow
  | setIdle (now : Nat)
  | refresh (now : Nat)
  | hlt
  | halted
  | away -- on the panic screen, or stopped for good
deriving DecidableEq, Repr

/-- The function of the keyboard driver that is running. -/
def Place.call : Place → Option Drivers.Call
  | hasKey => some .hasKey
  | getchar => some .getchar
  | _ => none

inductive Source
  | keyboard
  | serial
deriving DecidableEq, Repr

/-- What has happened; nothing in the kernel depends on it. -/
structure Trace where
  received : List UInt8 -- by the serial port
  handled : List (Source × UInt8) -- by the shell
  commands : List (List UInt8)
  seen : Nat -- the keys that were stored when the CPU was last woken
  time : Nat -- the ticks, without wrapping
  polled : Nat -- the time of the last `now`
  shown : Nat -- the time that `last_refresh` stands for
  refreshes : Nat
  calls : List Telemetry.Event

/-- The kernel after `sti`. -/
structure Loop where
  keys : Drivers.System
  shell : Shell.System
  fifo : List UInt8
  ticks : Nat
  monitor : Sysmon
  lastRefresh : Nat
  place : Place
  trace : Trace

/-- The receive buffer of the 16550 -/
def fifoDepth : Nat := 16

/-- `pit_get_ticks() - since < duration` -/
def Within (duration ticks since : Nat) : Prop := sub64 ticks since < duration

instance (duration ticks since : Nat) : Decidable (Within duration ticks since) :=
  inferInstanceAs (Decidable (_ < _))

namespace Loop

/-! ## Interrupts -/

/-- An interrupt wakes the CPU, and `hlt` is left. -/
def woken (s : Loop) : Loop :=
  if s.place = .halted then
    { s with
      place := .hasKey
      trace := { s.trace with seen := s.keys.accepted.length } }
  else s

def keyboardIrq (scancode : UInt8) (s : Loop) : Loop :=
  woken { s with
    keys := { s.keys with
      kbd := keyboardHandler scancode s.keys.kbd
      accepted := s.keys.accepted ++ stored scancode s.keys.kbd } }

/-- `pit_irq_handler` with its callback `sysmon_tick` -/
def timerIrq (s : Loop) : Loop :=
  woken { s with
    ticks := wrap64 (s.ticks + 1)
    monitor := sysmonTick s.monitor
    trace := { s.trace with
      time := s.trace.time + 1
      calls := s.trace.calls ++ [.tick] } }

/-- A byte on the serial line; the port has no room for more than its buffer holds. -/
def arrives (byte : UInt8) (s : Loop) : Loop :=
  if s.fifo.length < fifoDepth then
    { s with
      fifo := s.fifo ++ [byte]
      trace := { s.trace with received := s.trace.received ++ [byte] } }
  else s

/-! ## Keys -/

/-- What `keyboard_has_key` returns if it does so with its next access. -/
def hasKeyResult (keys : Drivers.System) : Bool :=
  match keys.pc with
  | .tailFirst _ tail => tail ≠ keys.kbd.head
  | .headFirst _ head => keys.kbd.tail ≠ head
  | _ => false

/-- What `keyboard_getchar` returns if it does so with its next access. -/
def getcharResult (keys : Drivers.System) : UInt8 :=
  match keys.pc with
  | .advance c _ => c
  | _ => 0

/-- An access of the keyboard driver: the loop goes on when the function returns. -/
def accessed (call : Drivers.Call) (keys : Drivers.System) (s : Loop) : Loop :=
  { s with
    keys := keys
    place :=
      if keys.pc = .idle then
        match call with
        | .hasKey => if hasKeyResult s.keys then .getchar else .hasChar
        | .getchar => .pressed (getcharResult s.keys)
      else s.place }

/-- The access belongs to the function. -/
def Belongs (call : Drivers.Call) : Drivers.Pc → Prop
  | .idle => True
  | .tailFirst call' _ => call' = call
  | .headFirst call' _ => call' = call
  | _ => call = .getchar

def handle (source : Source) (stats : Stats) (c : UInt8) (next : Place) (s : Loop) : Loop :=
  let shell := s.shell.polledKey stats c
  { s with
    shell := shell
    place := if shell.mode = .polling then next else .away
    trace := { s.trace with
      handled := s.trace.handled ++ [(source, c)]
      commands := s.trace.commands ++
        (if s.shell.menu.activeView = .menu ∧ IsEnter c then [commandOf s.shell.menu] else []) } }

/-- `if (c == '\r') c = '\n';` -/
def translated (c : UInt8) : UInt8 := if c = carriageReturn then newline else c

/-! ## Steps -/

/-- `menu_update` and `last_refresh = now`, if they are due -/
def refreshed (now : Nat) (s : Loop) : Loop :=
  if sub64 now s.lastRefresh ≥ 200 then
    { s with
      lastRefresh := now
      place := .hlt
      trace := { s.trace with
        shown := s.trace.polled
        refreshes := s.trace.refreshes + 1 } }
  else { s with place := .hlt }

/-- An access or a statement of `kernel_main`, or a key on the panic screen. -/
inductive Statement : Loop → Loop → Prop
  | panicKey {s : Loop} (c : UInt8) (here : s.place = .away) (panicking : s.shell.mode = .panicking)
      (char : c ≠ 0) :
      Statement s { s with
        shell := s.shell.panicKey c
        place := if (s.shell.panicKey c).mode = .polling then .readRefresh else .away }
  -- the waits
  | readStart {s : Loop} (here : s.place = .readStart) :
      Statement s { s with place := .verify s.ticks }
  | verify {s : Loop} {startTicks : Nat} (here : s.place = .verify startTicks) :
      Statement s { s with place := if Within 50 s.ticks startTicks then s.place else .readWait }
  | readWait {s : Loop} (here : s.place = .readWait) : Statement s { s with place := .wait s.ticks }
  | wait {s : Loop} {waitTicks : Nat} (here : s.place = .wait waitTicks) :
      Statement s { s with place := if Within 1100 s.ticks waitTicks then s.place else .initMenu }
  -- the shell
  | initMenu {s : Loop} (here : s.place = .initMenu) :
      Statement s { s with
        shell := { s.shell with menu := menuInit s.shell.menu.cmdBuf s.shell.menu.logHistory }
        place := .checkpoint }
  | checkpoint {s : Loop} (here : s.place = .checkpoint) :
      Statement s { s with shell := { s.shell with recoveryValid := true }, place := .readRefresh }
  | readRefresh {s : Loop} (here : s.place = .readRefresh) :
      Statement s { s with
        lastRefresh := s.ticks
        place := .hasKey
        trace := { s.trace with shown := s.trace.time } }
  -- the keyboard
  | access {s : Loop} {call : Drivers.Call} {keys : Drivers.System}
      (here : s.place.call = some call) (step : Drivers.System.Step s.keys keys)
      (moved : keys.pc ≠ s.keys.pc) (belongs : Belongs call keys.pc) :
      Statement s (s.accessed call keys)
  | pressed {s : Loop} {c : UInt8} (here : s.place = .pressed c) (stats : Stats) :
      Statement s (if c ≠ 0 then s.handle .keyboard stats c .hasKey
        else { s with place := .hasKey })
  -- the serial port
  | hasChar {s : Loop} (here : s.place = .hasChar) :
      Statement s { s with place := if s.fifo = [] then .readNow else .getc }
  | getc {s : Loop} (here : s.place = .getc) :
      Statement s { s with place := if s.fifo = [] then .typed 0 else .data }
  | data {s : Loop} {byte : UInt8} {rest : List UInt8} (here : s.place = .data)
      (waiting : s.fifo = byte :: rest) : Statement s { s with fifo := rest, place := .typed byte }
  | typed {s : Loop} {c : UInt8} (here : s.place = .typed c) (stats : Stats) :
      Statement s (if c ≠ 0 then s.handle .serial stats (translated c) .readNow
        else { s with place := .readNow })
  -- the screen
  | readNow {s : Loop} (here : s.place = .readNow) :
      Statement s { s with
        place := .setIdle s.ticks
        trace := { s.trace with polled := s.trace.time } }
  | setIdle {s : Loop} {now : Nat} (here : s.place = .setIdle now) :
      Statement s { s with
        monitor := sysmonSetIdle s.monitor
        place := .refresh now
        trace := { s.trace with calls := s.trace.calls ++ [.setIdle] } }
  | refresh {s : Loop} {now : Nat} (here : s.place = .refresh now) : Statement s (s.refreshed now)
  | hlt {s : Loop} (here : s.place = .hlt) : Statement s { s with place := .halted }

/-- A statement, an interrupt, or a byte on the serial line. -/
inductive Step : Loop → Loop → Prop
  | statement {s s' : Loop} (done : Statement s s') : Step s s'
  | keyboardIrq {s : Loop} (scancode : UInt8) (enabled : s.place ≠ .away) :
      Step s (s.keyboardIrq scancode)
  | timerIrq {s : Loop} (enabled : s.place ≠ .away) : Step s s.timerIrq
  | arrives {s : Loop} (byte : UInt8) : Step s (s.arrives byte)

/-! ## The start -/

/-- The kernel in front of `sti`, whatever the cells of the rings hold. -/
def start (buf : Int → UInt8) (cmdBuf : Nat → UInt8) (logHistory : Nat → Nat → UInt8) : Loop where
  keys := Drivers.System.init buf
  shell :=
    { menu :=
        { cmdBuf := cmdBuf
          cmdLen := 0
          logHistory := logHistory
          logCount := 0
          activeView := .menu }
      mode := .polling
      recoveryValid := false }
  fifo := []
  ticks := 0
  monitor := sysmonInit 0
  lastRefresh := 0
  place := .readStart
  trace :=
    { received := []
      handled := []
      commands := []
      seen := 0
      time := 0
      polled := 0
      shown := 0
      refreshes := 0
      calls := [] }

def Reachable (s : Loop) : Prop :=
  ∃ buf cmdBuf logHistory, Relation.ReflTransGen Step (start buf cmdBuf logHistory) s

end Loop

end Kernel
end AuraKernel
