import AuraKernel.Machine.Blocks
import AuraKernel.Telemetry.Sysmon
import Mathlib.Data.List.DropRight

namespace AuraKernel
namespace Telemetry

open Machine
open Physical

/-!
# The load that is reported

Marks of the idle loop and ticks of the timer arrive in any order.  Every tick is
idle or busy, according to whether there was a mark since the tick before it.
The monitor keeps only one flag and two counters of this stream, which are about
its open block of 1000 ticks, and what it has latched is about the last complete
block.
-/

/-! ## The reference -/

def sinceTick (events : List Event) : List Event := events.rtakeWhile (· ≠ .tick)

/-- For every tick, whether the CPU was marked as idle since the tick before it. -/
def marks (events : List Event) : List Bool :=
  (List.range events.length).filterMap fun i =>
    if events[i]? = some .tick then some (decide (.setIdle ∈ sinceTick (events.take i))) else none

/-- The idle ticks of the last complete block. -/
def idleTicksOfBlock (events : List Event) : Nat :=
  (lastBlock sysmonWindow (marks events)).count true

/-- What is promised of the monitor after `events`: its counters stay in their window and in
their words, and the load it reports is that of the last complete block, without the clamp. -/
structure ExactLoad (events : List Event) (s : Sysmon) : Prop where
  idle_le : s.windowIdle ≤ s.windowCount
  count_lt : s.windowCount < 1000
  counters_fit : s.windowIdle + 1 < 2 ^ 32 ∧ s.windowCount + 1 < 2 ^ 32
  product_fits : s.prevWindowIdle * 100 < 2 ^ 32
  unclamped : idlePct s ≤ 100
  in_range : ∀ now phys zstats, (sysmonGetStats now phys zstats s).cpuLoadPct ≤ 100
  load_eq : ∀ now phys zstats, 1000 ≤ events.count .tick →
    (sysmonGetStats now phys zstats s).cpuLoadPct = 100 - 100 * idleTicksOfBlock events / 1000

/-! ## The stream of ticks -/

section Marks

variable {events : List Event}

theorem sinceTick_tick : sinceTick (events ++ [.tick]) = [] := by
  unfold sinceTick
  exact List.rtakeWhile_concat_neg _ _ _ (by decide)

theorem sinceTick_setIdle : sinceTick (events ++ [.setIdle]) = sinceTick events ++ [.setIdle] := by
  unfold sinceTick
  exact List.rtakeWhile_concat_pos _ _ _ (by decide)

/-- The ticks so far stay what they are. -/
theorem marks_concat (event : Event) :
    marks (events ++ [event]) = marks events ++
      (if event = .tick then [decide (.setIdle ∈ sinceTick events)] else []) := by
  have earlier : ∀ i ∈ List.range events.length,
      (if (events ++ [event])[i]? = some .tick then
        some (decide (.setIdle ∈ sinceTick ((events ++ [event]).take i))) else none) =
      if events[i]? = some .tick then some (decide (.setIdle ∈ sinceTick (events.take i)))
        else none := by
    intro i inside
    have before := List.mem_range.mp inside
    rw [List.getElem?_append_left before, List.take_append_of_le_length (Nat.le_of_lt before)]
  unfold marks
  rw [List.length_append, List.length_singleton, List.range_succ, List.filterMap_append,
    List.filterMap_congr earlier]
  congr 1
  rw [List.filterMap_cons, List.getElem?_concat_length, List.take_left, List.filterMap_nil]
  cases event with
  | tick => rfl
  | setIdle => rfl

theorem marks_tick :
    marks (events ++ [.tick]) = marks events ++ [decide (.setIdle ∈ sinceTick events)] :=
  marks_concat .tick

theorem marks_setIdle : marks (events ++ [.setIdle]) = marks events :=
  (marks_concat .setIdle).trans (List.append_nil _)

theorem length_marks (events : List Event) : (marks events).length = events.count .tick := by
  induction events using List.reverseRecOn with
  | nil => rfl
  | append_singleton events event inductionHypothesis =>
      rw [marks_concat, List.length_append, inductionHypothesis, List.count_append]
      cases event with
      | tick => rfl
      | setIdle => rfl

end Marks

/-! ## The invariant -/

/-- The flag is about the calls since the last tick, the counters are about the open block, and
the latch is about the last complete one. -/
structure WindowInv (events : List Event) (s : Sysmon) : Prop where
  current_iff : s.currentIdle ≠ 0 ↔ .setIdle ∈ sinceTick events
  count_eq : s.windowCount = (openBlock sysmonWindow (marks events)).length
  idle_eq : s.windowIdle = (openBlock sysmonWindow (marks events)).count true
  total_eq : s.prevWindowTotal = sysmonWindow
  latched_eq : s.prevWindowIdle = idleTicksOfBlock events

section Steps

variable {events : List Event} {s : Sysmon}

theorem windowInv_init (ticks : Nat) : WindowInv [] (sysmonInit ticks) where
  current_iff := iff_of_false (fun idle => idle rfl) List.not_mem_nil
  count_eq := rfl
  idle_eq := rfl
  total_eq := rfl
  latched_eq := rfl

theorem WindowInv.count_lt (inv : WindowInv events s) : s.windowCount < sysmonWindow := by
  rw [inv.count_eq]
  exact length_openBlock_lt (by decide)

theorem WindowInv.idle_le (inv : WindowInv events s) : s.windowIdle ≤ s.windowCount := by
  rw [inv.count_eq, inv.idle_eq]
  exact List.count_le_length

/-- The counters do not wrap when a tick is counted. -/
theorem WindowInv.countTick_eq (inv : WindowInv events s) :
    (countTick s).windowCount = s.windowCount + 1 ∧
      (countTick s).windowIdle = s.windowIdle +
        [decide (Event.setIdle ∈ sinceTick events)].count true ∧
      (countTick s).currentIdle = 0 ∧ (countTick s).prevWindowTotal = s.prevWindowTotal ∧
      (countTick s).prevWindowIdle = s.prevWindowIdle := by
  have countLt := inv.count_lt
  have idleLe := inv.idle_le
  unfold sysmonWindow at countLt
  unfold countTick
  by_cases idle : s.currentIdle ≠ 0
  · rw [if_pos idle, decide_eq_true (inv.current_iff.mp idle)]
    exact ⟨wrap32_of_lt (by dsimp only; omega), wrap64_of_lt (by omega), rfl, rfl, rfl⟩
  · rw [if_neg idle, decide_eq_false fun marked => idle (inv.current_iff.mpr marked)]
    exact ⟨wrap32_of_lt (by omega), rfl, rfl, rfl, rfl⟩

/-- A tick belongs to the open block, and closes it when it is the last of the window. -/
theorem WindowInv.tick (inv : WindowInv events s) :
    WindowInv (events ++ [.tick]) (sysmonTick s) := by
  rcases inv.countTick_eq with ⟨count, idle, current, total, latched⟩
  have countLt := inv.count_lt
  have idleLe := inv.idle_le
  rw [inv.count_eq] at count countLt
  rw [inv.idle_eq] at idle
  have counted : (countTick s).currentIdle ≠ 0 ↔ Event.setIdle ∈ sinceTick (events ++ [.tick]) := by
    rw [current, sinceTick_tick]
    exact iff_of_false (fun nonzero => nonzero rfl) List.not_mem_nil
  unfold sysmonTick
  by_cases full : (countTick s).windowCount ≥ sysmonWindow
  · have fills : (openBlock sysmonWindow (marks events)).length + 1 = sysmonWindow := by omega
    rw [if_pos full]
    refine ⟨counted, ?_, ?_, ?_, ?_⟩
    · rw [marks_tick, openBlock_concat_full fills]
      rfl
    · rw [marks_tick, openBlock_concat_full fills]
      rfl
    · exact count.trans fills
    · have small : (openBlock sysmonWindow (marks events)).count true +
          [decide (Event.setIdle ∈ sinceTick events)].count true < 2 ^ 32 := by
        have open_le := List.count_le_length (l := openBlock sysmonWindow (marks events))
          (a := true)
        have mark_le := List.count_le_length (l := [decide (Event.setIdle ∈ sinceTick events)])
          (a := true)
        rw [List.length_singleton] at mark_le
        unfold sysmonWindow at *
        omega
      change wrap32 (countTick s).windowIdle = _
      unfold idleTicksOfBlock
      rw [marks_tick, lastBlock_concat_full fills, List.count_append, idle, wrap32_of_lt small]
  · have room : (openBlock sysmonWindow (marks events)).length + 1 < sysmonWindow := by omega
    rw [if_neg full]
    refine ⟨counted, ?_, ?_, total.trans inv.total_eq, ?_⟩
    · rw [marks_tick, openBlock_concat room, List.length_append]
      exact count
    · rw [marks_tick, openBlock_concat room, List.count_append]
      exact idle
    · unfold idleTicksOfBlock
      rw [latched, inv.latched_eq, marks_tick, lastBlock_concat room]
      rfl

/-- A mark sets the flag, however often it comes. -/
theorem WindowInv.setIdle (inv : WindowInv events s) :
    WindowInv (events ++ [.setIdle]) (sysmonSetIdle s) := by
  constructor
  case current_iff =>
    rw [sinceTick_setIdle]
    exact iff_of_true Nat.one_ne_zero (List.mem_append_right _ (List.mem_singleton_self _))
  case count_eq =>
    rw [marks_setIdle]
    exact inv.count_eq
  case idle_eq =>
    rw [marks_setIdle]
    exact inv.idle_eq
  case total_eq => exact inv.total_eq
  case latched_eq =>
    unfold idleTicksOfBlock
    rw [marks_setIdle]
    exact inv.latched_eq

/-- The invariant holds after every sequence of calls. -/
theorem windowInv_run (ticks : Nat) (events : List Event) :
    WindowInv events (runEvents events (sysmonInit ticks)) := by
  induction events using List.reverseRecOn with
  | nil => exact windowInv_init ticks
  | append_singleton events event inductionHypothesis =>
      rw [runEvents_concat]
      cases event with
      | tick => exact inductionHypothesis.tick
      | setIdle => exact inductionHypothesis.setIdle

/-- The latch holds at most a whole block. -/
theorem idleTicksOfBlock_le (events : List Event) : idleTicksOfBlock events ≤ 1000 := by
  refine Nat.le_trans List.count_le_length ?_
  unfold lastBlock
  rw [List.length_drop, List.length_take]
  unfold sysmonWindow
  omega

theorem WindowInv.exactLoad (inv : WindowInv events s) : ExactLoad events s := by
  have countLt := inv.count_lt
  have idleLe := inv.idle_le
  have latchLe := idleTicksOfBlock_le events
  rw [← inv.latched_eq] at latchLe
  unfold sysmonWindow at countLt
  have percentage : idlePct s = 100 * idleTicksOfBlock events / 1000 := by
    unfold idlePct
    rw [wrap32_of_lt (by omega), inv.total_eq, inv.latched_eq, Nat.mul_comm]
    rfl
  have unclamped : idlePct s ≤ 100 := by
    rw [percentage, ← inv.latched_eq]
    omega
  have load : cpuLoadPct s = 100 - 100 * idleTicksOfBlock events / 1000 := by
    unfold cpuLoadPct
    rw [inv.total_eq, if_pos (by decide)]
    dsimp only
    rw [if_neg (Nat.not_lt.mpr unclamped), Nat.mod_eq_of_lt (by omega), percentage]
  constructor
  case idle_le => exact idleLe
  case count_lt => exact countLt
  case counters_fit => omega
  case product_fits => omega
  case unclamped => exact unclamped
  case in_range =>
    intro now phys zstats
    change cpuLoadPct s ≤ 100
    omega
  case load_eq => exact fun now phys zstats _ => load

end Steps

/-- After every sequence of ticks and idle marks since `sysmon_init` the load is exact: it is that
of the last complete window, whatever has happened in the window that is still open. -/
theorem cpuLoad_exact (ticks : Nat) (events : List Event) :
    ExactLoad events (runEvents events (sysmonInit ticks)) :=
  (windowInv_run ticks events).exactLoad

end Telemetry
end AuraKernel
