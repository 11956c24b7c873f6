import AuraKernel.Kernel.InputPath
import AuraKernel.Telemetry.CpuLoad

namespace AuraKernel
namespace Kernel

open Machine
open Shell (Stats)
open Telemetry (Sysmon Event sysmonInit sysmonGetStats runEvents runEvents_concat idleTicksOfBlock
  marks marks_concat marks_tick length_marks windowInv_run)

/-!
# The pace of the main loop

The loop sleeps in `hlt` between interrupts.  It never does so on a key that was
there when it was last woken; a key that is stored between its last look at the
ring and `hlt` waits for the next interrupt.  The loop also counts ticks to redraw
the screen at intervals; the counter wraps, and differences of ticks are taken in
64 bits.  All of this holds whenever the interrupts come.
-/

/-! ## No key that was seen is slept on -/

/-- The loop has found the ring empty since the CPU was woken. -/
def Place.looked : Place → Bool
  | hasChar => true
  | getc => true
  | data => true
  | typed _ => true
  | readNow => true
  | setIdle _ => true
  | refresh _ => true
  | hlt => true
  | halted => true
  | _ => false

/-- When the CPU sleeps, every key that was there when it was last woken has been handed to
the shell. -/
def Attentive (s : Loop) : Prop :=
  s.place = .halted → s.trace.seen ≤ (s.trace.bytesOf .keyboard).length

structure SeenInv (s : Loop) : Prop where
  le : s.trace.seen ≤ s.keys.accepted.length
  comparing : s.place = .hasKey → ∀ call head, s.keys.pc = .headFirst call head →
    ∃ count, s.trace.seen ≤ count ∧ s.keys.returned.length ≤ count ∧
      count ≤ s.keys.accepted.length ∧ head = ((count % 32 : Nat) : Int)
  looked : s.place.looked = true → s.trace.seen ≤ s.keys.returned.length

namespace SeenInv

variable {s s' : Loop}

/-- A step that does not touch the ring. -/
theorem goOn (inv : SeenInv s) (path : PathInv s) (keys : s'.keys = s.keys)
    (seen : s'.trace.seen = s.trace.seen) (outside : s.place.call = none)
    (looked : s'.place.looked = true → s.place.looked = true) : SeenInv s' where
  le := by
    rw [keys, seen]
    exact inv.le
  comparing := by
    intro _ call head running
    rw [keys, path.idle outside] at running
    cases running
  looked := by
    rw [keys, seen]
    exact fun here => inv.looked (looked here)

theorem woken (inv : SeenInv s) (path : PathInv s) : SeenInv s.woken := by
  unfold Loop.woken
  by_cases halted : s.place = .halted
  · rw [if_pos halted]
    refine ⟨Nat.le_refl _, fun _ _ head running => ?_,
      fun here => absurd here Bool.false_ne_true⟩
    dsimp only at running
    rw [path.idle (by rw [halted]; rfl)] at running
    cases running
  · rw [if_neg halted]
    exact inv

theorem keyboardIrq (inv : SeenInv s) (path : PathInv s) (scancode : UInt8) :
    SeenInv (s.keyboardIrq scancode) := by
  have path' : PathInv { s with
      keys := { s.keys with
        kbd := Drivers.keyboardHandler scancode s.keys.kbd
        accepted := s.keys.accepted ++ Drivers.stored scancode s.keys.kbd } } :=
    ⟨path.keys.irq scancode, path.calls, path.keyboard, path.serial⟩
  refine woken ⟨?_, fun here call head running => ?_, inv.looked⟩ path'
  · exact Nat.le_trans inv.le (by simp)
  · rcases inv.comparing here call head running with ⟨count, low, read, written, same⟩
    exact ⟨count, low, read, Nat.le_trans written (by simp), same⟩

/-- The ring is found empty when all keys were read that were there when the CPU was woken. -/
theorem empty (inv : SeenInv s) (path : PathInv s) (here : s.place = .hasKey)
    {keys : Drivers.System} (step : Drivers.System.Step s.keys keys)
    (moved : keys.pc ≠ s.keys.pc) (ended : keys.pc = .idle)
    (belongs : Loop.Belongs .hasKey s.keys.pc) (result : Loop.hasKeyResult s.keys = false) :
    s.trace.seen ≤ s.keys.returned.length := by
  have counted := path.keys.counted
  have known := path.keys.pc
  cases step with
  | irq scancode => exact absurd rfl moved
  | tailFirst call' at_ => cases ended
  | headFirst call' at_ => cases ended
  | @thenHead call' tail at_ =>
      unfold Loop.hasKeyResult at result
      rw [at_] at result known
      have same : tail = s.keys.kbd.head := by simpa using result
      have tailEq : tail = s.keys.kbd.tail := known
      rw [tailEq, counted.head, counted.tail, Int.ofNat_inj, counted.counts.index_eq_iff] at same
      rw [same]
      exact inv.le
  | @thenTail call' head at_ =>
      unfold Loop.hasKeyResult at result
      rw [at_] at result
      have same : s.keys.kbd.tail = head := by simpa using result
      rcases inv.comparing here call' head at_ with ⟨count, low, read, written, headEq⟩
      rw [counted.tail, headEq, Int.ofNat_inj] at same
      have counts : RingCounts 32 s.keys.returned.length count :=
        ⟨read, Nat.lt_of_le_of_lt written counted.counts.room⟩
      rw [counts.index_eq_iff.mp same]
      exact low
  | readIndex at_ => cases ended
  | readCell at_ => cases ended
  | readTail at_ => cases ended
  | writeTail at_ =>
      rw [at_] at belongs
      cases belongs

/-- What the comparison knows of the head it has read. -/
theorem compares (inv : SeenInv s) (path : PathInv s) {keys : Drivers.System}
    (step : Drivers.System.Step s.keys keys) (moved : keys.pc ≠ s.keys.pc) {call : Drivers.Call}
    {head : Int} (running : keys.pc = .headFirst call head) :
    ∃ count, s.trace.seen ≤ count ∧ keys.returned.length ≤ count ∧
      count ≤ keys.accepted.length ∧ head = ((count % 32 : Nat) : Int) := by
  have counted := path.keys.counted
  cases step with
  | irq scancode => exact absurd rfl moved
  | tailFirst call' at_ => cases running
  | headFirst call' at_ =>
      cases running
      exact ⟨_, inv.le, counted.counts.le, Nat.le_refl _, counted.head⟩
  | @thenHead call' tail at_ =>
      cases call' with
      | hasKey => cases running
      | getchar =>
          dsimp only [Drivers.compared] at running
          split at running
          all_goals cases running
  | @thenTail call' tail at_ =>
      cases call' with
      | hasKey => cases running
      | getchar =>
          dsimp only [Drivers.compared] at running
          split at running
          all_goals cases running
  | readIndex at_ => cases running
  | readCell at_ => cases running
  | readTail at_ => cases running
  | writeTail at_ => cases running

theorem access (inv : SeenInv s) (path : PathInv s) {call : Drivers.Call} {keys : Drivers.System}
    (here : s.place.call = some call) (step : Drivers.System.Step s.keys keys)
    (moved : keys.pc ≠ s.keys.pc) : SeenInv (s.accessed call keys) := by
  have before : s.keys.pc ≠ .idle → Loop.Belongs call s.keys.pc := by
    intro running
    rcases path.calls running with ⟨call', here', belongs'⟩
    cases here.symm.trans here'
    exact belongs'
  have accepted : keys.accepted = s.keys.accepted := by
    cases accessed_of_step step moved before with
    | inside _ accepted _ => exact accepted
    | compared _ accepted _ _ => exact accepted
    | returned _ _ accepted _ _ _ => exact accepted
  have notLooked : s.place.looked = false := by
    cases place : s.place with
    | hasKey => rfl
    | getchar => rfl
    | _ => rw [place] at here; cases here
  constructor
  case le =>
    change s.trace.seen ≤ keys.accepted.length
    rw [accepted]
    exact inv.le
  case comparing => exact fun _ call' head running => inv.compares path step moved running
  case looked =>
    intro looked
    unfold Loop.accessed at looked
    dsimp only at looked
    by_cases ended : keys.pc = .idle
    · rw [if_pos ended] at looked
      cases call with
      | getchar => cases looked
      | hasKey =>
          have running : s.keys.pc ≠ .idle := fun idle => moved (ended.trans idle.symm)
          dsimp only at looked
          cases result : Loop.hasKeyResult s.keys with
          | true =>
              rw [result] at looked
              cases looked
          | false =>
              have place : s.place = .hasKey := by
                cases place : s.place with
                | hasKey => rfl
                | _ => rw [place] at here; cases here
              have returned : keys.returned = s.keys.returned := by
                cases accessed_of_step step moved before with
                | inside _ _ returned => exact returned
                | compared _ _ returned _ => exact returned
                | returned _ _ _ _ _ getchar => cases getchar
              change s.trace.seen ≤ keys.returned.length
              rw [returned]
              exact inv.empty path place step moved ended (before running) result
    · rw [if_neg ended, notLooked] at looked
      cases looked

/-- A byte that is handed to the shell is in the view of the loop, or the loop starts anew. -/
theorem handle_looked {s : Loop} {source : Source} {stats : Stats} {c : UInt8} {next : Place}
    (looked : (s.handle source stats c next).place.looked = true) : next.looked = true := by
  unfold Loop.handle at looked
  dsimp only at looked
  split at looked
  · exact looked
  · cases looked

theorem statement (inv : SeenInv s) (path : PathInv s) (done : Loop.Statement s s') :
    SeenInv s' := by
  cases done with
  | panicKey c here _ _ =>
      refine inv.goOn path rfl rfl (here ▸ rfl) fun after => ?_
      dsimp only at after
      split at after
      all_goals cases after
  | readStart here => exact inv.goOn path rfl rfl (here ▸ rfl) fun after => by cases after
  | @verify startTicks here =>
      refine inv.goOn path rfl rfl (here ▸ rfl) fun after => ?_
      dsimp only at after
      split at after
      · exact after
      · cases after
  | readWait here => exact inv.goOn path rfl rfl (here ▸ rfl) fun after => by cases after
  | @wait waitTicks here =>
      refine inv.goOn path rfl rfl (here ▸ rfl) fun after => ?_
      dsimp only at after
      split at after
      · exact after
      · cases after
  | initMenu here => exact inv.goOn path rfl rfl (here ▸ rfl) fun after => by cases after
  | checkpoint here => exact inv.goOn path rfl rfl (here ▸ rfl) fun after => by cases after
  | readRefresh here => exact inv.goOn path rfl rfl (here ▸ rfl) fun after => by cases after
  | access here step moved _ => exact inv.access path here step moved
  | pressed here stats =>
      split
      · exact inv.goOn path rfl rfl (here ▸ rfl) fun after => by cases handle_looked after
      · exact inv.goOn path rfl rfl (here ▸ rfl) fun after => by cases after
  | hasChar here => exact inv.goOn path rfl rfl (here ▸ rfl) fun _ => here ▸ rfl
  | getc here => exact inv.goOn path rfl rfl (here ▸ rfl) fun _ => here ▸ rfl
  | data here waiting => exact inv.goOn path rfl rfl (here ▸ rfl) fun _ => here ▸ rfl
  | typed here stats =>
      split
      all_goals exact inv.goOn path rfl rfl (here ▸ rfl) fun _ => here ▸ rfl
  | readNow here => exact inv.goOn path rfl rfl (here ▸ rfl) fun _ => here ▸ rfl
  | setIdle here => exact inv.goOn path rfl rfl (here ▸ rfl) fun _ => here ▸ rfl
  | refresh here =>
      unfold Loop.refreshed
      split
      all_goals exact inv.goOn path rfl rfl (here ▸ rfl) fun _ => here ▸ rfl
  | hlt here => exact inv.goOn path rfl rfl (here ▸ rfl) fun _ => here ▸ rfl

theorem step (inv : SeenInv s) (path : PathInv s) (step : Loop.Step s s') : SeenInv s' := by
  cases step with
  | statement done => exact inv.statement path done
  | keyboardIrq scancode _ => exact inv.keyboardIrq path scancode
  | timerIrq _ =>
      exact woken ⟨inv.le, inv.comparing, inv.looked⟩
        (path.move rfl rfl rfl rfl (fun _ => rfl) fun _ => rfl)
  | arrives byte =>
      unfold Loop.arrives
      split
      · exact ⟨inv.le, inv.comparing, inv.looked⟩
      · exact inv

end SeenInv

theorem seenInv_start (buf : Int → UInt8) (cmdBuf : Nat → UInt8)
    (logHistory : Nat → Nat → UInt8) : SeenInv (Loop.start buf cmdBuf logHistory) where
  le := Nat.le_refl 0
  comparing := fun here => by cases here
  looked := fun here => by cases here

theorem Loop.Reachable.seenInv {s : Loop} (reachable : s.Reachable) : SeenInv s := by
  rcases reachable with ⟨buf, cmdBuf, logHistory, run⟩
  induction run with
  | refl => exact seenInv_start buf cmdBuf logHistory
  | tail earlier step inductionHypothesis =>
      exact inductionHypothesis.step (Reachable.paths ⟨_, _, _, earlier⟩).1 step

/-- In every run, with interrupts between any two accesses, the CPU never sleeps on a key that
was there when it was last woken: by then the key has been handed to the shell. -/
theorem reachable_attentive {s : Loop} (reachable : s.Reachable) : Attentive s := by
  intro here
  have path := reachable.paths.1
  have looked := reachable.seenInv.looked (here ▸ rfl)
  have returned := path.keyboard
  rw [here] at returned
  rw [returned, show Place.inHand .keyboard .halted = [] from rfl, List.append_nil] at looked
  exact looked

/-- A key wakes the CPU, and is handled before the CPU sleeps again. -/
theorem reachable_attentive_small :
    ∃ s, Attentive s ∧ s.place = .halted ∧ s.trace.seen = 1 ∧ s.trace.bytesOf .keyboard = [97] := by
  refine ⟨_, reachable_attentive ⟨_, _, _, Loop.reaches_booted.tail (.statement (.readRefresh rfl))
    |>.tail (.statement (.access rfl (.headFirst .hasKey rfl) (by decide) rfl))
    |>.tail (.statement (.access rfl (.thenTail rfl) (by decide) trivial))
    |>.tail (.statement (.hasChar rfl)) |>.tail (.statement (.readNow rfl))
    |>.tail (.statement (.setIdle rfl)) |>.tail (.statement (.refresh rfl))
    |>.tail (.statement (.hlt rfl))
    |>.tail (.keyboardIrq 0x1E (by decide))
    |>.tail (.statement (.access rfl (.tailFirst .hasKey rfl) (by decide) rfl))
    |>.tail (.statement (.access rfl (.thenHead rfl) (by decide) trivial))
    |>.tail (.statement (.access rfl (.tailFirst .getchar rfl) (by decide) rfl))
    |>.tail (.statement (.access rfl (.thenHead rfl) (by decide) rfl))
    |>.tail (.statement (.access rfl (.readIndex rfl) (by decide) rfl))
    |>.tail (.statement (.access rfl (.readCell rfl) (by decide) rfl))
    |>.tail (.statement (.access rfl (.readTail rfl) (by decide) rfl))
    |>.tail (.statement (.access rfl (.writeTail rfl) (by decide) trivial))
    |>.tail (.statement (.pressed rfl ⟨0, 0, 0⟩))
    |>.tail (.statement (.access rfl (.tailFirst .hasKey rfl) (by decide) rfl))
    |>.tail (.statement (.access rfl (.thenHead rfl) (by decide) trivial))
    |>.tail (.statement (.hasChar rfl)) |>.tail (.statement (.readNow rfl))
    |>.tail (.statement (.setIdle rfl)) |>.tail (.statement (.refresh rfl))
    |>.tail (.statement (.hlt rfl))⟩, ?_, ?_, ?_⟩
  · decide +kernel
  · decide +kernel
  · decide +kernel

/-! ## The screen -/

/-- The redraws are at least 200 ticks apart, and none is older than 200 ticks when the CPU goes
to sleep. -/
structure Paced (s : Loop) : Prop where
  apart : 0 < s.trace.refreshes → 1150 + 200 * s.trace.refreshes ≤ s.trace.time
  fresh : s.place = .halted → (s.trace.polled - s.trace.shown) % 2 ^ 64 < 200

/-- A difference of two times, taken from the counter. -/
theorem sub64_wrap64 {since now : Nat} (le : since ≤ now) :
    sub64 (wrap64 now) (wrap64 since) = (now - since) % 2 ^ 64 := by
  unfold sub64 wrap64
  split
  all_goals omega

/-- The value of `last_refresh`, and the redraws up to it. -/
def ShownAt (t : Trace) (lastRefresh : Nat) : Prop :=
  lastRefresh = wrap64 t.shown ∧ 1150 + 200 * t.refreshes ≤ t.shown

/-- What the time is at each place. -/
def PaceAt (t : Trace) (lastRefresh : Nat) : Place → Prop
  | .readStart => t.refreshes = 0
  | .verify startTicks => t.refreshes = 0 ∧ ∃ since, since ≤ t.time ∧ startTicks = wrap64 since
  | .readWait => t.refreshes = 0 ∧ 50 ≤ t.time
  | .wait waitTicks =>
      t.refreshes = 0 ∧ ∃ since, 50 ≤ since ∧ since ≤ t.time ∧ waitTicks = wrap64 since
  | .initMenu => 1150 + 200 * t.refreshes ≤ t.time
  | .checkpoint => 1150 + 200 * t.refreshes ≤ t.time
  | .readRefresh => 1150 + 200 * t.refreshes ≤ t.time
  | .away => 1150 + 200 * t.refreshes ≤ t.time
  | .setIdle now => ShownAt t lastRefresh ∧ now = wrap64 t.polled ∧ t.shown ≤ t.polled
  | .refresh now => ShownAt t lastRefresh ∧ now = wrap64 t.polled ∧ t.shown ≤ t.polled
  | .hlt => ShownAt t lastRefresh ∧ (t.polled - t.shown) % 2 ^ 64 < 200
  | .halted => ShownAt t lastRefresh ∧ (t.polled - t.shown) % 2 ^ 64 < 200
  | _ => ShownAt t lastRefresh

structure PaceInv (s : Loop) : Prop where
  ticks : s.ticks = wrap64 s.trace.time
  polled : s.trace.polled ≤ s.trace.time
  shown : s.trace.shown ≤ s.trace.time
  place : PaceAt s.trace s.lastRefresh s.place

namespace PaceInv

variable {s s' : Loop}

/-- In the loop the value of `last_refresh` is known. -/
theorem shownAt (inv : PaceInv s) (looping : s.place.looping = true)
    (late : s.place ≠ .readRefresh) : ShownAt s.trace s.lastRefresh := by
  have place := inv.place
  cases here : s.place with
  | readRefresh => exact absurd here late
  | setIdle now => rw [here] at place; exact place.1
  | refresh now => rw [here] at place; exact place.1
  | hlt => rw [here] at place; exact place.1
  | halted => rw [here] at place; exact place.1
  | hasKey => rw [here] at place; exact place
  | getchar => rw [here] at place; exact place
  | pressed c => rw [here] at place; exact place
  | hasChar => rw [here] at place; exact place
  | getc => rw [here] at place; exact place
  | data => rw [here] at place; exact place
  | typed c => rw [here] at place; exact place
  | readNow => rw [here] at place; exact place
  | _ => rw [here] at looping; cases looping

theorem later {t t' : Trace} {lastRefresh : Nat} {place : Place} (le : t.time ≤ t'.time)
    (polled : t'.polled = t.polled) (shown : t'.shown = t.shown)
    (refreshes : t'.refreshes = t.refreshes) (known : PaceAt t lastRefresh place) :
    PaceAt t' lastRefresh place := by
  have shownAt : ShownAt t lastRefresh → ShownAt t' lastRefresh := by
    unfold ShownAt
    rw [shown, refreshes]
    exact id
  cases place with
  | readStart => exact refreshes.trans known
  | verify startTicks =>
      rcases known with ⟨none, since, before, same⟩
      exact ⟨refreshes.trans none, since, Nat.le_trans before le, same⟩
  | readWait => exact ⟨refreshes.trans known.1, Nat.le_trans known.2 le⟩
  | wait waitTicks =>
      rcases known with ⟨none, since, after, before, same⟩
      exact ⟨refreshes.trans none, since, after, Nat.le_trans before le, same⟩
  | initMenu => exact Nat.le_trans (refreshes ▸ known) le
  | checkpoint => exact Nat.le_trans (refreshes ▸ known) le
  | readRefresh => exact Nat.le_trans (refreshes ▸ known) le
  | away => exact Nat.le_trans (refreshes ▸ known) le
  | setIdle now => exact ⟨shownAt known.1, polled ▸ known.2.1, polled ▸ shown ▸ known.2.2⟩
  | refresh now => exact ⟨shownAt known.1, polled ▸ known.2.1, polled ▸ shown ▸ known.2.2⟩
  | hlt => exact ⟨shownAt known.1, polled ▸ shown ▸ known.2⟩
  | halted => exact ⟨shownAt known.1, polled ▸ shown ▸ known.2⟩
  | _ => exact shownAt known

theorem woken (inv : PaceInv s) : PaceInv s.woken := by
  unfold Loop.woken
  by_cases halted : s.place = .halted
  · rw [if_pos halted]
    exact ⟨inv.ticks, inv.polled, inv.shown,
      inv.shownAt (halted ▸ rfl) (by rw [halted]; simp)⟩
  · rw [if_neg halted]
    exact inv

theorem timerIrq (inv : PaceInv s) : PaceInv s.timerIrq := by
  refine woken ⟨?_, Nat.le_succ_of_le inv.polled, Nat.le_succ_of_le inv.shown,
    later (Nat.le_succ _) rfl rfl rfl inv.place⟩
  dsimp only
  rw [inv.ticks]
  unfold wrap64
  omega

/-- A step at which the timer plays no part. -/
theorem goOn (inv : PaceInv s) (ticks : s'.ticks = s.ticks) (trace : s'.trace.time = s.trace.time)
    (polled : s'.trace.polled = s.trace.polled) (shown : s'.trace.shown = s.trace.shown)
    (place : PaceAt s'.trace s'.lastRefresh s'.place) : PaceInv s' where
  ticks := by rw [ticks, trace, inv.ticks]
  polled := by
    rw [polled, trace]
    exact inv.polled
  shown := by
    rw [shown, trace]
    exact inv.shown
  place := place

theorem handle (inv : PaceInv s) {source : Source} {c : UInt8} {next : Place} (stats : Stats)
    (before : s.place.looping = true) (notFirst : s.place ≠ .readRefresh)
    (after : ∀ t lastRefresh, ShownAt t lastRefresh → PaceAt t lastRefresh next) :
    PaceInv (s.handle source stats c next) := by
  have known := inv.shownAt before notFirst
  refine inv.goOn rfl rfl rfl rfl ?_
  unfold Loop.handle
  dsimp only
  by_cases goesOn : (s.shell.polledKey stats c).mode = .polling
  · rw [if_pos goesOn]
    exact after _ _ known
  · rw [if_neg goesOn]
    exact Nat.le_trans known.2 inv.shown

theorem refreshed (inv : PaceInv s) {now : Nat} (here : s.place = .refresh now) :
    PaceInv (s.refreshed now) := by
  have known := inv.place
  rw [here] at known
  rcases known with ⟨⟨last, rate⟩, nowEq, le⟩
  unfold Loop.refreshed
  have elapsed : sub64 now s.lastRefresh = (s.trace.polled - s.trace.shown) % 2 ^ 64 := by
    rw [last, nowEq, sub64_wrap64 le]
  rw [elapsed]
  by_cases due : (s.trace.polled - s.trace.shown) % 2 ^ 64 ≥ 200
  · rw [if_pos due]
    have apart : 200 ≤ s.trace.polled - s.trace.shown := Nat.le_trans due (Nat.mod_le _ _)
    refine ⟨inv.ticks, inv.polled, inv.polled, ⟨nowEq, ?_⟩, ?_⟩
    · dsimp only
      omega
    · dsimp only
      rw [Nat.sub_self]
      decide
  · rw [if_neg due]
    exact inv.goOn rfl rfl rfl rfl ⟨⟨last, rate⟩, Nat.not_le.mp due⟩

theorem statement (inv : PaceInv s) (done : Loop.Statement s s') : PaceInv s' := by
  have known := inv.place
  cases done with
  | panicKey c here _ _ =>
      rw [here] at known
      refine inv.goOn rfl rfl rfl rfl ?_
      dsimp only
      split
      all_goals exact known
  | readStart here =>
      rw [here] at known
      exact inv.goOn rfl rfl rfl rfl ⟨known, s.trace.time, Nat.le_refl _, inv.ticks⟩
  | @verify startTicks here =>
      rw [here] at known
      rcases known with ⟨none, since, before, same⟩
      refine inv.goOn rfl rfl rfl rfl ?_
      dsimp only
      rw [here]
      by_cases within : Within 50 s.ticks startTicks
      · rw [if_pos within]
        exact ⟨none, since, before, same⟩
      · rw [if_neg within]
        unfold Within at within
        rw [inv.ticks, same, sub64_wrap64 before] at within
        exact ⟨none, by omega⟩
  | readWait here =>
      rw [here] at known
      exact inv.goOn rfl rfl rfl rfl
        ⟨known.1, s.trace.time, known.2, Nat.le_refl _, inv.ticks⟩
  | @wait waitTicks here =>
      rw [here] at known
      rcases known with ⟨none, since, after, before, same⟩
      refine inv.goOn rfl rfl rfl rfl ?_
      dsimp only
      rw [here]
      by_cases within : Within 1100 s.ticks waitTicks
      · rw [if_pos within]
        exact ⟨none, since, after, before, same⟩
      · rw [if_neg within]
        unfold Within at within
        rw [inv.ticks, same, sub64_wrap64 before] at within
        dsimp only [PaceAt]
        omega
  | initMenu here =>
      rw [here] at known
      exact inv.goOn rfl rfl rfl rfl known
  | checkpoint here =>
      rw [here] at known
      exact inv.goOn rfl rfl rfl rfl known
  | readRefresh here =>
      rw [here] at known
      exact ⟨inv.ticks, inv.polled, Nat.le_refl _, inv.ticks, known⟩
  | @access call keys here step moved _ =>
      have before : s.place.looping = true ∧ s.place ≠ .readRefresh := by
        cases place : s.place with
        | hasKey => exact ⟨rfl, by simp⟩
        | getchar => exact ⟨rfl, by simp⟩
        | _ => rw [place] at here; cases here
      have shownAt := inv.shownAt before.1 before.2
      refine inv.goOn rfl rfl rfl rfl ?_
      unfold Loop.accessed
      dsimp only
      split
      · cases call with
        | hasKey =>
            dsimp only
            split
            all_goals exact shownAt
        | getchar => exact shownAt
      · exact known
  | pressed here stats =>
      split
      · exact inv.handle stats (here ▸ rfl) (by rw [here]; simp) fun _ _ shownAt => shownAt
      · rw [here] at known
        exact inv.goOn rfl rfl rfl rfl known
  | hasChar here =>
      rw [here] at known
      refine inv.goOn rfl rfl rfl rfl ?_
      dsimp only
      split
      all_goals exact known
  | getc here =>
      rw [here] at known
      refine inv.goOn rfl rfl rfl rfl ?_
      dsimp only
      split
      all_goals exact known
  | data here waiting =>
      rw [here] at known
      exact inv.goOn rfl rfl rfl rfl known
  | typed here stats =>
      split
      · exact inv.handle stats (here ▸ rfl) (by rw [here]; simp) fun _ _ shownAt => shownAt
      · rw [here] at known
        exact inv.goOn rfl rfl rfl rfl known
  | readNow here =>
      rw [here] at known
      exact ⟨inv.ticks, Nat.le_refl _, inv.shown, known, inv.ticks, inv.shown⟩
  | setIdle here =>
      rw [here] at known
      exact inv.goOn rfl rfl rfl rfl known
  | refresh here => exact inv.refreshed here
  | hlt here =>
      rw [here] at known
      exact inv.goOn rfl rfl rfl rfl known

theorem step (inv : PaceInv s) (step : Loop.Step s s') : PaceInv s' := by
  cases step with
  | statement done => exact inv.statement done
  | keyboardIrq scancode _ => exact woken ⟨inv.ticks, inv.polled, inv.shown, inv.place⟩
  | timerIrq _ => exact inv.timerIrq
  | arrives byte =>
      unfold Loop.arrives
      split
      · exact inv.goOn rfl rfl rfl rfl (later (Nat.le_refl _) rfl rfl rfl inv.place)
      · exact inv

end PaceInv

theorem paceInv_start (buf : Int → UInt8) (cmdBuf : Nat → UInt8)
    (logHistory : Nat → Nat → UInt8) : PaceInv (Loop.start buf cmdBuf logHistory) where
  ticks := rfl
  polled := Nat.le_refl 0
  shown := Nat.le_refl 0
  place := rfl

theorem Loop.Reachable.paceInv {s : Loop} (reachable : s.Reachable) : PaceInv s := by
  rcases reachable with ⟨buf, cmdBuf, logHistory, run⟩
  induction run with
  | refl => exact paceInv_start buf cmdBuf logHistory
  | tail _ step inductionHypothesis => exact inductionHypothesis.step step

/-- A loop that was kept busy for 200 ticks has redrawn the screen and sleeps. -/
theorem Loop.reaches_slept :
    ∃ s : Loop, s.Reachable ∧ s.place = .halted ∧ s.trace.time = 1350 ∧ s.trace.refreshes = 1 ∧
      s.trace.shown = 1350 := by
  have started := reaches_booted.tail (.statement (.readRefresh rfl))
  have busy := started.trans
    (reaches_waited (by simp) (by simp) 200 (by decide : 1150 + 200 < 2 ^ 64))
  refine ⟨_, ⟨_, _, _, busy.tail (.statement (.access rfl (.tailFirst .hasKey rfl) (by decide) rfl))
    |>.tail (.statement (.access rfl (.thenHead rfl) (by decide) trivial))
    |>.tail (.statement (.hasChar rfl)) |>.tail (.statement (.readNow rfl))
    |>.tail (.statement (.setIdle rfl)) |>.tail (.statement (.refresh rfl))
    |>.tail (.statement (.hlt rfl))⟩, ?_, ?_, ?_, ?_⟩
  · decide +kernel
  · decide +kernel
  · decide +kernel
  · decide +kernel

/-- In every run the screen is redrawn at the pace that the loop is written for, however long a
pass takes and wherever the interrupts fall: the counter of the timer may wrap, since the loop
looks at differences only. -/
theorem reachable_paced {s : Loop} (reachable : s.Reachable) : Paced s := by
  have inv := reachable.paceInv
  have known := inv.place
  constructor
  case apart =>
    intro some
    cases here : s.place with
    | readStart => rw [here] at known; exact absurd known (Nat.ne_of_gt some)
    | verify startTicks => rw [here] at known; exact absurd known.1 (Nat.ne_of_gt some)
    | readWait => rw [here] at known; exact absurd known.1 (Nat.ne_of_gt some)
    | wait waitTicks => rw [here] at known; exact absurd known.1 (Nat.ne_of_gt some)
    | initMenu => rw [here] at known; exact known
    | checkpoint => rw [here] at known; exact known
    | readRefresh => rw [here] at known; exact known
    | away => rw [here] at known; exact known
    | _ =>
        have shownAt := inv.shownAt (by rw [here]; rfl) (by rw [here]; simp)
        exact Nat.le_trans shownAt.2 inv.shown
  case fresh =>
    intro here
    rw [here] at known
    exact known.2

theorem reachable_paced_small :
    ∃ s, Paced s ∧ s.place = .halted ∧ s.trace.refreshes = 1 ∧ s.trace.time = 1150 + 200 * 1 := by
  rcases Loop.reaches_slept with ⟨s, reachable, place, time, refreshes, _⟩
  exact ⟨s, reachable_paced reachable, place, refreshes, time⟩

/-! ## The load -/

/-- The figures of the monitor are about the ticks since `sti`: the uptime counts all of them,
the load is that of the last complete second, and it is 100 % for the first two seconds, since
the loop that marks the CPU as idle is not reached in the first of them. -/
structure Measured (s : Loop) : Prop where
  uptime : ∀ phys zstats,
    (sysmonGetStats s.ticks phys zstats s.monitor).uptimeMs = s.trace.time % 2 ^ 64
  load : s.place.looping = true → ∀ now phys zstats,
    1000 ≤ s.trace.time ∧ (sysmonGetStats now phys zstats s.monitor).cpuLoadPct =
      100 - 100 * idleTicksOfBlock s.trace.calls / 1000
  busy : s.trace.time < 2000 → ∀ now phys zstats,
    (sysmonGetStats now phys zstats s.monitor).cpuLoadPct = 100

/-- The calls of the first 1150 ticks are these ticks. -/
structure MonitorInv (s : Loop) : Prop where
  monitor : s.monitor = runEvents s.trace.calls (sysmonInit 0)
  ticks : s.trace.calls.count .tick = s.trace.time
  waiting : s.trace.time < 1150 → s.trace.calls = List.replicate s.trace.time .tick
  waited : 1150 ≤ s.trace.time → List.replicate 1150 .tick <+: s.trace.calls

theorem runEvents_initTick (events : List Event) (s : Sysmon) :
    (runEvents events s).initTick = s.initTick := by
  induction events using List.reverseRecOn with
  | nil => rfl
  | append_singleton events event inductionHypothesis =>
      rw [runEvents_concat, ← inductionHypothesis]
      cases event with
      | setIdle => rfl
      | tick =>
          have counted : ∀ s : Sysmon, (Telemetry.countTick s).initTick = s.initTick := by
            intro s
            unfold Telemetry.countTick
            split
            all_goals rfl
          change (Telemetry.sysmonTick (runEvents events s)).initTick = _
          unfold Telemetry.sysmonTick
          dsimp only
          split
          all_goals exact counted _

theorem marks_prefix (events more : List Event) : marks events <+: marks (events ++ more) := by
  induction more using List.reverseRecOn with
  | nil => rw [List.append_nil]
  | append_singleton more event inductionHypothesis =>
      rw [← List.append_assoc, marks_concat]
      exact inductionHypothesis.trans (List.prefix_append _ _)

theorem marks_replicate (n : Nat) : marks (List.replicate n .tick) = List.replicate n false := by
  induction n with
  | zero => rfl
  | succ n inductionHypothesis =>
      rw [List.replicate_succ', marks_tick, inductionHypothesis, List.replicate_succ']
      refine congrArg (fun mark => List.replicate n false ++ [mark]) (decide_eq_false ?_)
      intro member
      have earlier := (List.rtakeWhile_suffix _ _).subset member
      exact absurd (List.eq_of_mem_replicate earlier) (by decide)

namespace MonitorInv

variable {s s' : Loop}

theorem goOn (inv : MonitorInv s) (monitor : s'.monitor = s.monitor)
    (calls : s'.trace.calls = s.trace.calls) (time : s'.trace.time = s.trace.time) :
    MonitorInv s' where
  monitor := by rw [monitor, calls, inv.monitor]
  ticks := by rw [calls, time, inv.ticks]
  waiting := by
    rw [calls, time]
    exact inv.waiting
  waited := by
    rw [calls, time]
    exact inv.waited

theorem woken (inv : MonitorInv s) : MonitorInv s.woken := by
  unfold Loop.woken
  split
  · exact inv.goOn rfl rfl rfl
  · exact inv

theorem timerIrq (inv : MonitorInv s) : MonitorInv s.timerIrq := by
  apply woken
  constructor
  case monitor =>
    dsimp only
    rw [runEvents_concat, ← inv.monitor]
    rfl
  case ticks =>
    dsimp only
    rw [List.count_append, inv.ticks]
    rfl
  case waiting =>
    intro early
    dsimp only at early ⊢
    rw [inv.waiting (Nat.lt_of_succ_lt early), List.replicate_succ']
  case waited =>
    intro late
    dsimp only at late ⊢
    by_cases before : 1150 ≤ s.trace.time
    · exact (inv.waited before).trans (List.prefix_append _ _)
    · have last : s.trace.time = 1149 := by omega
      rw [inv.waiting (Nat.not_le.mp before), last, ← List.replicate_succ']

theorem setIdle (inv : MonitorInv s) (late : 1150 ≤ s.trace.time) {place : Place} :
    MonitorInv { s with
      monitor := Telemetry.sysmonSetIdle s.monitor
      place := place
      trace := { s.trace with calls := s.trace.calls ++ [.setIdle] } } := by
  constructor
  case monitor =>
    dsimp only
    rw [runEvents_concat, ← inv.monitor]
    rfl
  case ticks =>
    dsimp only
    rw [List.count_append, inv.ticks]
    rfl
  case waiting => exact fun early => absurd early (Nat.not_lt.mpr late)
  case waited => exact fun _ => (inv.waited late).trans (List.prefix_append _ _)

theorem statement (inv : MonitorInv s) (pace : PaceInv s) (done : Loop.Statement s s') :
    MonitorInv s' := by
  cases done with
  | pressed here stats =>
      split
      all_goals exact inv.goOn rfl rfl rfl
  | typed here stats =>
      split
      all_goals exact inv.goOn rfl rfl rfl
  | setIdle here =>
      have shownAt := pace.shownAt (here ▸ rfl) (by rw [here]; simp)
      have shown := pace.shown
      have rate := shownAt.2
      exact inv.setIdle (by omega)
  | refresh here =>
      unfold Loop.refreshed
      split
      all_goals exact inv.goOn rfl rfl rfl
  | _ => exact inv.goOn rfl rfl rfl

/-- There is no idle tick in the first two seconds that are reported. -/
theorem no_idle (inv : MonitorInv s) (early : s.trace.time < 2000) :
    idleTicksOfBlock s.trace.calls = 0 := by
  have length := length_marks s.trace.calls
  rw [inv.ticks] at length
  have first : (marks s.trace.calls).take 1000 = List.replicate (min 1000 s.trace.time) false := by
    by_cases waiting : s.trace.time < 1150
    · rw [inv.waiting waiting, marks_replicate, List.take_replicate]
    · rcases inv.waited (Nat.not_lt.mp waiting) with ⟨rest, calls⟩
      rcases marks_prefix (List.replicate 1150 .tick) rest with ⟨later, whole⟩
      rw [calls, marks_replicate] at whole
      have enough : 1000 ≤ (List.replicate 1150 false).length := by
        rw [List.length_replicate]
        decide
      rw [← whole, List.take_append_of_le_length enough, List.take_replicate,
        Nat.min_eq_left (by omega), Nat.min_eq_left (by omega)]
  have blocks : boundary 1000 (marks s.trace.calls) ≤ 1000 := by
    unfold boundary
    rw [length]
    omega
  unfold idleTicksOfBlock lastBlock Telemetry.sysmonWindow
  rw [Nat.sub_eq_zero_of_le blocks, List.drop_zero, List.count_eq_zero]
  intro member
  have inFirst := (List.take_prefix_take_left blocks).subset member
  rw [first] at inFirst
  exact Bool.noConfusion (List.eq_of_mem_replicate inFirst)

theorem step (inv : MonitorInv s) (pace : PaceInv s) (step : Loop.Step s s') : MonitorInv s' := by
  cases step with
  | statement done => exact inv.statement pace done
  | keyboardIrq scancode _ => exact woken (inv.goOn rfl rfl rfl)
  | timerIrq _ => exact inv.timerIrq
  | arrives byte =>
      unfold Loop.arrives
      split
      · exact inv.goOn rfl rfl rfl
      · exact inv

end MonitorInv

theorem monitorInv_start (buf : Int → UInt8) (cmdBuf : Nat → UInt8)
    (logHistory : Nat → Nat → UInt8) : MonitorInv (Loop.start buf cmdBuf logHistory) where
  monitor := rfl
  ticks := rfl
  waiting := fun _ => rfl
  waited := fun late => absurd late (show ¬ 1150 ≤ 0 by decide)

theorem Loop.Reachable.monitorInv {s : Loop} (reachable : s.Reachable) : MonitorInv s := by
  rcases reachable with ⟨buf, cmdBuf, logHistory, run⟩
  induction run with
  | refl => exact monitorInv_start buf cmdBuf logHistory
  | tail earlier step inductionHypothesis =>
      exact inductionHypothesis.step (Reachable.paceInv ⟨_, _, _, earlier⟩) step

/-- In every run the uptime and the load that `sysmon_get_stats` reports are measured.  The full
load of the first two seconds is measured as well: the loop that marks the CPU as idle begins
1150 ticks after `sti`. -/
theorem reachable_measured {s : Loop} (reachable : s.Reachable) : Measured s := by
  have pace := reachable.paceInv
  have inv := reachable.monitorInv
  have window := windowInv_run 0 s.trace.calls
  rw [← inv.monitor] at window
  constructor
  case uptime =>
    intro phys zstats
    have initTick : s.monitor.initTick = 0 := by
      rw [inv.monitor, runEvents_initTick]
      rfl
    change sub64 s.ticks s.monitor.initTick = _
    rw [initTick, sub64_of_le (Nat.zero_le _), pace.ticks]
    rfl
  case load =>
    intro looping now phys zstats
    have late : 1000 ≤ s.trace.time := by
      have place := pace.place
      have shown := pace.shown
      by_cases first : s.place = .readRefresh
      · rw [first] at place
        have rate : 1150 + 200 * s.trace.refreshes ≤ s.trace.time := place
        omega
      · have rate := (pace.shownAt looping first).2
        omega
    refine ⟨late, window.exactLoad.load_eq now phys zstats ?_⟩
    rw [inv.ticks]
    exact late
  case busy =>
    intro early now phys zstats
    change Telemetry.cpuLoadPct s.monitor = 100
    unfold Telemetry.cpuLoadPct Telemetry.idlePct
    rw [window.total_eq, window.latched_eq, inv.no_idle early]
    rfl

theorem reachable_measured_small :
    ∃ s, Measured s ∧ s.place.looping = true ∧ s.trace.time = 1350 := by
  rcases Loop.reaches_slept with ⟨s, reachable, place, time, _, _⟩
  exact ⟨s, reachable_measured reachable, place ▸ rfl, time⟩

end Kernel
end AuraKernel
