import AuraKernel.Physical.Pmm
import AuraKernel.Zram.Pool

namespace AuraKernel
namespace Telemetry

open Machine
open Physical

/-!
# The system monitor

`kernel/core/sysmon.c` is called at every tick of the timer and by the idle loop
in front of `hlt`.  It counts the ticks of a window and those among them that
found the CPU idle, and latches both counters when the window is full.  The
frame manager and the compressor are read when the statistics are asked for.
-/

def sysmonWindow : Nat := 1000

/-- The static variables of `sysmon.c`. -/
structure Sysmon where
  idleTicks : Nat
  currentIdle : Nat
  windowIdle : Nat
  windowCount : Nat
  prevWindowIdle : Nat
  prevWindowTotal : Nat
  initTick : Nat
deriving DecidableEq, Repr

/-- `sysmon_init`, when the timer has counted `ticks` ticks -/
def sysmonInit (ticks : Nat) : Sysmon where
  idleTicks := 0
  currentIdle := 0
  windowIdle := 0
  windowCount := 0
  prevWindowIdle := 0
  prevWindowTotal := sysmonWindow
  initTick := ticks

/-- The first half of `sysmon_tick`: the tick that has just finished is counted. -/
def countTick (s : Sysmon) : Sysmon :=
  let s :=
    if s.currentIdle ≠ 0 then
      { s with windowIdle := wrap64 (s.windowIdle + 1), idleTicks := wrap64 (s.idleTicks + 1) }
    else s
  { s with currentIdle := 0, windowCount := wrap32 (s.windowCount + 1) }

def sysmonTick (s : Sysmon) : Sysmon :=
  let s := countTick s
  -- Once per window, latch the percentages
  if s.windowCount ≥ sysmonWindow then
    { s with
      prevWindowIdle := wrap32 s.windowIdle
      prevWindowTotal := s.windowCount
      windowIdle := 0
      windowCount := 0 }
  else s

def sysmonSetIdle (s : Sysmon) : Sysmon := { s with currentIdle := 1 }

structure SysmonStats where
  uptimeMs : Nat
  cpuLoadPct : Nat
  ramUsedKb : Nat
  ramTotalKb : Nat
  zramSavedKb : Nat
  zramRatioX100 : Nat
deriving DecidableEq, Repr

/-- `idle_pct` before it is clamped -/
def idlePct (s : Sysmon) : Nat := wrap32 (s.prevWindowIdle * 100) / s.prevWindowTotal

def cpuLoadPct (s : Sysmon) : Nat :=
  if s.prevWindowTotal > 0 then
    let idlePct := idlePct s
    let idlePct := if idlePct > 100 then 100 else idlePct
    (100 - idlePct) % 2 ^ 8
  else 0

/-- `sysmon_get_stats` with a pointer that is not NULL, when `pit_get_ticks` returns `now` -/
def sysmonGetStats (now : Nat) (phys : PhysState) (zstats : Zram.Stats) (s : Sysmon) :
    SysmonStats where
  uptimeMs := sub64 now s.initTick
  cpuLoadPct := cpuLoadPct s
  ramUsedKb := wrap32 (sub64 (pmmGetTotalMemory phys) (pmmGetFreeMemory phys) / 1024)
  ramTotalKb := wrap32 (pmmGetTotalMemory phys / 1024)
  zramSavedKb :=
    if zstats.originalBytes ≥ zstats.compressedBytes then
      (zstats.originalBytes - zstats.compressedBytes) / 1024
    else 0
  zramRatioX100 := zstats.compressionRatioX100

/-- What calls the monitor: the interrupt of the timer, and the idle loop. -/
inductive Event
  | tick
  | setIdle
deriving DecidableEq, Repr

def Event.run : Event → Sysmon → Sysmon
  | tick => sysmonTick
  | setIdle => sysmonSetIdle

def runEvents (events : List Event) (s : Sysmon) : Sysmon :=
  events.foldl (fun s event => event.run s) s

theorem runEvents_concat (events : List Event) (event : Event) (s : Sysmon) :
    runEvents (events ++ [event]) s = event.run (runEvents events s) := by
  unfold runEvents
  rw [List.foldl_append]
  rfl

end Telemetry
end AuraKernel
