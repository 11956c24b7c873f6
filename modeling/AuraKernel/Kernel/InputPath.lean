import AuraKernel.Drivers.KeyRing
import AuraKernel.Kernel.MainLoop
import AuraKernel.Shell.Prompt

namespace AuraKernel
namespace Kernel

open Drivers (KeyInv PcInv)
open Shell (MenuInv SystemInv prompt promptAfter promptKey commandsBy commandKey Stats)
open Telemetry (sysmonTick)

/-!
# From the keys to the commands

A key is stored by an interrupt, read by the main loop while other interrupts come
in between, and handed to the shell; a byte of the serial line waits in the buffer
of the port and is read there.  The shell sees all of them, each source in its
order, and executes what they say, also when commands fault in between.
-/

/-- The bytes of one source that the shell was given. -/
def Trace.bytesOf (t : Trace) (source : Source) : List UInt8 :=
  (t.handled.filter (·.1 = source)).map Prod.snd

/-- All bytes that the shell was given. -/
def Trace.input (t : Trace) : List UInt8 := t.handled.map Prod.snd

/-- What the shell is given of the bytes on the serial line. -/
def serialText (bytes : List UInt8) : List UInt8 := (bytes.filter (· ≠ 0)).map Loop.translated

/-- The byte that was read and is about to be handed to the shell. -/
def Place.inHand (source : Source) : Place → List UInt8
  | pressed c => if source = .keyboard ∧ c ≠ 0 then [c] else []
  | typed c => if source = .serial then serialText [c] else []
  | _ => []

/-- No function of the driver runs, and no byte is in hand. -/
def Place.Quiet (place : Place) : Prop :=
  place.call = none ∧ ∀ source, place.inHand source = []

/-- The shell has not been started yet. -/
def Place.booting : Place → Bool
  | readStart => true
  | verify _ => true
  | readWait => true
  | wait _ => true
  | initMenu => true
  | _ => false

/-- The shell is running, and the CPU is not on the panic screen. -/
def Place.looping : Place → Bool
  | checkpoint => false
  | away => false
  | place => !place.booting

theorem Place.looping_iff (place : Place) :
    place.looping = true ↔ place.booting = false ∧ place ≠ .checkpoint ∧ place ≠ .away := by
  cases place with
  | checkpoint => simp [Place.looping]
  | away => simp [Place.looping]
  | _ => simp [Place.looping, Place.booting]

/-- The ways of the input: nothing is lost, duplicated or reordered between the interrupt or
the port and the shell, and the shell's view, line and commands are those of its input. -/
structure InputPath (s : Loop) : Prop where
  keyboard : s.keys.accepted =
    s.trace.bytesOf .keyboard ++ s.place.inHand .keyboard ++ s.keys.kbd.unread
  serial : serialText s.trace.received =
    s.trace.bytesOf .serial ++ s.place.inHand .serial ++ serialText s.fifo
  shell : s.place.booting = false → s.shell.mode ≠ .stopped →
    prompt s.shell.menu = promptAfter s.trace.input
  commands : s.trace.commands = commandsBy s.trace.input

/-! ## The keyboard and the serial port -/

theorem serialText_append (bytes bytes' : List UInt8) :
    serialText (bytes ++ bytes') = serialText bytes ++ serialText bytes' := by
  unfold serialText
  rw [List.filter_append, List.map_append]

theorem bytesOf_handle {t : Trace} {source source' : Source} {c : UInt8}
    {commands : List (List UInt8)} :
    Trace.bytesOf { t with handled := t.handled ++ [(source, c)], commands := commands } source' =
      t.bytesOf source' ++ if source = source' then [c] else [] := by
  unfold Trace.bytesOf
  rw [List.filter_append, List.map_append]
  by_cases same : source = source'
  · rw [if_pos same, same]
    simp
  · rw [if_neg same]
    simp [same]

/-- What a step of the driver does while one of its functions runs. -/
inductive Accessed (call : Drivers.Call) (keys keys' : Drivers.System) : Prop
  | inside (running : keys'.pc ≠ .idle) (accepted : keys'.accepted = keys.accepted)
      (returned : keys'.returned = keys.returned)
  | compared (ended : keys'.pc = .idle) (accepted : keys'.accepted = keys.accepted)
      (returned : keys'.returned = keys.returned) (nothing : Loop.getcharResult keys = 0)
  | returned (c : UInt8) (ended : keys'.pc = .idle) (accepted : keys'.accepted = keys.accepted)
      (returned : keys'.returned = keys.returned ++ [c]) (result : Loop.getcharResult keys = c)
      (getchar : call = .getchar)

theorem accessed_of_step {call : Drivers.Call} {keys keys' : Drivers.System}
    (step : Drivers.System.Step keys keys') (moved : keys'.pc ≠ keys.pc)
    (belongs : keys.pc ≠ .idle → Loop.Belongs call keys.pc) : Accessed call keys keys' := by
  cases step with
  | irq scancode => exact absurd rfl moved
  | tailFirst call' here => exact Accessed.inside (by simp) rfl rfl
  | headFirst call' here => exact Accessed.inside (by simp) rfl rfl
  | @thenHead call' tail here =>
      by_cases ended : Drivers.compared call' tail keys.kbd.head = .idle
      · refine Accessed.compared ended rfl rfl ?_
        unfold Loop.getcharResult
        rw [here]
      · exact Accessed.inside ended rfl rfl
  | @thenTail call' head here =>
      by_cases ended : Drivers.compared call' keys.kbd.tail head = .idle
      · refine Accessed.compared ended rfl rfl ?_
        unfold Loop.getcharResult
        rw [here]
      · exact Accessed.inside ended rfl rfl
  | readIndex here => exact Accessed.inside (by simp) rfl rfl
  | readCell here => exact Accessed.inside (by simp) rfl rfl
  | readTail here => exact Accessed.inside (by simp) rfl rfl
  | @writeTail c tail here =>
      refine Accessed.returned c rfl rfl rfl ?_ ?_
      · unfold Loop.getcharResult
        rw [here]
      · have known := belongs (by rw [here]; simp)
        rw [here] at known
        exact known

structure PathInv (s : Loop) : Prop where
  keys : KeyInv s.keys
  calls : s.keys.pc ≠ .idle → ∃ call, s.place.call = some call ∧ Loop.Belongs call s.keys.pc
  keyboard : s.keys.returned = s.trace.bytesOf .keyboard ++ s.place.inHand .keyboard
  serial : serialText s.trace.received =
    s.trace.bytesOf .serial ++ s.place.inHand .serial ++ serialText s.fifo

namespace PathInv

variable {s s' : Loop}

/-- A step that neither reads a byte nor hands one to the shell. -/
theorem move (inv : PathInv s) (keys : s'.keys = s.keys) (fifo : s'.fifo = s.fifo)
    (received : s'.trace.received = s.trace.received) (handled : s'.trace.handled = s.trace.handled)
    (hand : ∀ source, s'.place.inHand source = s.place.inHand source)
    (place : s.place.call.isSome → s'.place = s.place) : PathInv s' := by
  have bytesOf : ∀ source, s'.trace.bytesOf source = s.trace.bytesOf source := by
    intro source
    unfold Trace.bytesOf
    rw [handled]
  constructor
  case keys =>
    rw [keys]
    exact inv.keys
  case calls =>
    intro running
    rw [keys] at running ⊢
    rcases inv.calls running with ⟨call, here, belongs⟩
    rw [place (by rw [here]; rfl)]
    exact ⟨call, here, belongs⟩
  case keyboard =>
    rw [keys, bytesOf, hand]
    exact inv.keyboard
  case serial =>
    rw [received, fifo, bytesOf, hand]
    exact inv.serial

theorem woken (inv : PathInv s) : PathInv s.woken := by
  unfold Loop.woken
  by_cases halted : s.place = .halted
  · rw [if_pos halted]
    refine inv.move rfl rfl rfl rfl (fun source => ?_) fun running => ?_
    · rw [halted]
      rfl
    · rw [halted] at running
      exact absurd running (by decide)
  · rw [if_neg halted]
    exact inv

/-- Away from the two functions of the driver, none of them runs. -/
theorem idle (inv : PathInv s) (outside : s.place.call = none) : s.keys.pc = .idle := by
  by_contra running
  rcases inv.calls running with ⟨call, here, _⟩
  rw [outside] at here
  cases here

theorem keyboardIrq (inv : PathInv s) (scancode : UInt8) : PathInv (s.keyboardIrq scancode) := by
  apply woken
  exact ⟨inv.keys.irq scancode, inv.calls, inv.keyboard, inv.serial⟩

theorem arrives (inv : PathInv s) (byte : UInt8) : PathInv (s.arrives byte) := by
  unfold Loop.arrives
  by_cases room : s.fifo.length < fifoDepth
  · rw [if_pos room]
    refine ⟨inv.keys, inv.calls, inv.keyboard, ?_⟩
    have serial := inv.serial
    dsimp only
    rw [serialText_append, serialText_append, ← List.append_assoc, serial]
    rfl
  · rw [if_neg room]
    exact inv

theorem access (inv : PathInv s) {call : Drivers.Call} {keys : Drivers.System}
    (here : s.place.call = some call) (step : Drivers.System.Step s.keys keys)
    (moved : keys.pc ≠ s.keys.pc) (belongs : Loop.Belongs call keys.pc) :
    PathInv (s.accessed call keys) := by
  have before : s.keys.pc ≠ .idle → Loop.Belongs call s.keys.pc := by
    intro running
    rcases inv.calls running with ⟨call', here', belongs'⟩
    cases here.symm.trans here'
    exact belongs'
  have nothing : ∀ source, s.place.inHand source = [] := by
    intro source
    cases place : s.place with
    | pressed c => rw [place] at here; cases here
    | typed c => rw [place] at here; cases here
    | _ => rfl
  have inv' := inv.keys.step step
  have keyboard := inv.keyboard
  have serial := inv.serial
  rw [nothing] at keyboard serial
  have handSerial : (s.accessed call keys).place.inHand .serial = [] := by
    unfold Loop.accessed
    dsimp only
    by_cases ended : keys.pc = .idle
    · rw [if_pos ended]
      cases call with
      | hasKey =>
          dsimp only
          split
          all_goals rfl
      | getchar => rfl
    · rw [if_neg ended]
      exact nothing _
  refine ⟨inv', fun running => ⟨call, ?_, belongs⟩, ?_, ?_⟩
  · unfold Loop.accessed at running ⊢
    dsimp only at running ⊢
    rw [if_neg running]
    exact here
  · cases accessed_of_step step moved before with
    | inside running accepted returned =>
        unfold Loop.accessed
        dsimp only
        rw [if_neg running, nothing, returned]
        exact keyboard
    | compared ended accepted returned nothing' =>
        unfold Loop.accessed
        dsimp only
        rw [if_pos ended, returned, nothing', keyboard]
        cases call with
        | hasKey =>
            dsimp only
            split
            all_goals rfl
        | getchar => rfl
    | returned c ended accepted returned result getchar =>
        have char : c ≠ 0 := by
          rintro rfl
          apply inv'.chars
          rw [inv'.fifo, returned]
          simp
        unfold Loop.accessed
        dsimp only
        rw [if_pos ended, returned, result, keyboard, getchar]
        dsimp only [Place.inHand]
        rw [if_pos ⟨rfl, char⟩, List.append_nil]
  · rw [handSerial]
    exact serial

/-- The byte in hand goes to the shell. -/
theorem handle (inv : PathInv s) {source : Source} {c : UInt8} {next : Place} (stats : Stats)
    (idle : s.keys.pc = .idle) (hand : s.place.inHand source = [c])
    (others : ∀ other, other ≠ source → s.place.inHand other = [])
    (nothing : ∀ source, next.inHand source = []) :
    PathInv (s.handle source stats c next) := by
  have after : ∀ source', (s.handle source stats c next).place.inHand source' = [] := by
    intro source'
    unfold Loop.handle
    dsimp only
    split
    · exact nothing source'
    · rfl
  have bytes : ∀ source', (s.handle source stats c next).trace.bytesOf source' =
      s.trace.bytesOf source' ++ s.place.inHand source' := by
    intro source'
    refine bytesOf_handle.trans (congrArg (s.trace.bytesOf source' ++ ·) ?_)
    by_cases same : source = source'
    · rw [if_pos same, ← same, hand]
    · rw [if_neg same, others source' fun equal => same equal.symm]
  constructor
  case keys => exact inv.keys
  case calls => exact fun running => absurd idle running
  case keyboard =>
    rw [bytes, after, List.append_nil]
    exact inv.keyboard
  case serial =>
    rw [bytes, after, List.append_nil]
    exact inv.serial

/-- Most steps of `kernel_main` go on without a byte in hand. -/
theorem quiet (inv : PathInv s) (keys : s'.keys = s.keys) (fifo : s'.fifo = s.fifo)
    (received : s'.trace.received = s.trace.received) (handled : s'.trace.handled = s.trace.handled)
    (before : s.place.Quiet) (after : ∀ source, s'.place.inHand source = []) : PathInv s' := by
  refine inv.move keys fifo received handled (fun source => ?_) fun running => ?_
  · rw [before.2, after]
  · rw [before.1] at running
    cases running

theorem pressed (inv : PathInv s) {c : UInt8} (here : s.place = .pressed c) (stats : Stats) :
    PathInv (if c ≠ 0 then s.handle .keyboard stats c .hasKey
      else { s with place := .hasKey }) := by
  have idle := inv.idle (by rw [here]; rfl)
  by_cases char : c ≠ 0
  · rw [if_pos char]
    refine inv.handle stats idle ?_ (fun other different => ?_) fun _ => rfl
    · rw [here]
      exact if_pos ⟨rfl, char⟩
    · rw [here]
      exact if_neg fun both => different both.1
  · rw [if_neg char]
    refine inv.quiet rfl rfl rfl rfl ⟨by rw [here]; rfl, fun source => ?_⟩ fun _ => rfl
    rw [here]
    exact if_neg fun both => char both.2

theorem serialText_singleton (c : UInt8) :
    serialText [c] = if c ≠ 0 then [Loop.translated c] else [] := by
  unfold serialText
  by_cases char : c ≠ 0
  · rw [if_pos char]
    simp [char]
  · rw [if_neg char]
    simp [not_not.mp char]

theorem typed (inv : PathInv s) {c : UInt8} (here : s.place = .typed c) (stats : Stats) :
    PathInv (if c ≠ 0 then s.handle .serial stats (Loop.translated c) .readNow
      else { s with place := .readNow }) := by
  have idle := inv.idle (by rw [here]; rfl)
  have hand : ∀ source,
      s.place.inHand source = if source = .serial then serialText [c] else [] := by
    intro source
    rw [here]
    rfl
  by_cases char : c ≠ 0
  · rw [if_pos char]
    refine inv.handle stats idle ?_ (fun other different => ?_) fun _ => rfl
    · rw [hand, if_pos rfl, serialText_singleton, if_pos char]
    · rw [hand, if_neg different]
  · rw [if_neg char]
    refine inv.quiet rfl rfl rfl rfl ⟨by rw [here]; rfl, fun source => ?_⟩ fun _ => rfl
    rw [hand, serialText_singleton, if_neg char, ite_self]

/-- A byte leaves the buffer of the port. -/
theorem data (inv : PathInv s) {byte : UInt8} {rest : List UInt8} (here : s.place = .data)
    (waiting : s.fifo = byte :: rest) :
    PathInv { s with fifo := rest, place := .typed byte } := by
  have idle := inv.idle (by rw [here]; rfl)
  have serial := inv.serial
  have keyboard := inv.keyboard
  rw [here] at serial keyboard
  refine ⟨inv.keys, fun running => absurd idle running, keyboard, ?_⟩
  rw [waiting, ← List.singleton_append, serialText_append, ← List.append_assoc,
    show Place.inHand .serial .data = [] from rfl, List.append_nil] at serial
  exact serial

theorem statement (inv : PathInv s) (done : Loop.Statement s s') : PathInv s' := by
  cases done with
  | panicKey c here _ _ =>
      refine inv.quiet rfl rfl rfl rfl (here ▸ ⟨rfl, fun _ => rfl⟩) fun source => ?_
      dsimp only
      split
      all_goals rfl
  | readStart here => exact inv.quiet rfl rfl rfl rfl (here ▸ ⟨rfl, fun _ => rfl⟩) fun _ => rfl
  | @verify startTicks here =>
      refine inv.quiet rfl rfl rfl rfl (here ▸ ⟨rfl, fun _ => rfl⟩) fun source => ?_
      dsimp only
      rw [here]
      split
      all_goals rfl
  | readWait here => exact inv.quiet rfl rfl rfl rfl (here ▸ ⟨rfl, fun _ => rfl⟩) fun _ => rfl
  | @wait waitTicks here =>
      refine inv.quiet rfl rfl rfl rfl (here ▸ ⟨rfl, fun _ => rfl⟩) fun source => ?_
      dsimp only
      rw [here]
      split
      all_goals rfl
  | initMenu here => exact inv.quiet rfl rfl rfl rfl (here ▸ ⟨rfl, fun _ => rfl⟩) fun _ => rfl
  | checkpoint here => exact inv.quiet rfl rfl rfl rfl (here ▸ ⟨rfl, fun _ => rfl⟩) fun _ => rfl
  | readRefresh here => exact inv.quiet rfl rfl rfl rfl (here ▸ ⟨rfl, fun _ => rfl⟩) fun _ => rfl
  | access here step moved belongs => exact inv.access here step moved belongs
  | pressed here stats => exact inv.pressed here stats
  | hasChar here =>
      refine inv.quiet rfl rfl rfl rfl (here ▸ ⟨rfl, fun _ => rfl⟩) fun source => ?_
      dsimp only
      split
      all_goals rfl
  | getc here =>
      refine inv.quiet rfl rfl rfl rfl (here ▸ ⟨rfl, fun _ => rfl⟩) fun source => ?_
      dsimp only
      split
      · exact ite_self _
      · rfl
  | data here waiting => exact inv.data here waiting
  | typed here stats => exact inv.typed here stats
  | readNow here => exact inv.quiet rfl rfl rfl rfl (here ▸ ⟨rfl, fun _ => rfl⟩) fun _ => rfl
  | setIdle here => exact inv.quiet rfl rfl rfl rfl (here ▸ ⟨rfl, fun _ => rfl⟩) fun _ => rfl
  | @refresh now here =>
      unfold Loop.refreshed
      split
      all_goals exact inv.quiet rfl rfl rfl rfl (here ▸ ⟨rfl, fun _ => rfl⟩) fun _ => rfl
  | hlt here => exact inv.quiet rfl rfl rfl rfl (here ▸ ⟨rfl, fun _ => rfl⟩) fun _ => rfl

theorem step (inv : PathInv s) (step : Loop.Step s s') : PathInv s' := by
  cases step with
  | statement done => exact inv.statement done
  | keyboardIrq scancode _ => exact inv.keyboardIrq scancode
  | timerIrq _ => exact woken (inv.move rfl rfl rfl rfl (fun _ => rfl) fun _ => rfl)
  | arrives byte => exact inv.arrives byte

end PathInv

theorem pathInv_start (buf : Int → UInt8) (cmdBuf : Nat → UInt8) (logHistory : Nat → Nat → UInt8) :
    PathInv (Loop.start buf cmdBuf logHistory) where
  keys := Drivers.keyInv_init buf
  calls := fun running => absurd rfl running
  keyboard := rfl
  serial := rfl

/-! ## The shell -/

structure ShellInv (s : Loop) : Prop where
  polling : s.place ≠ .away → s.shell.mode = .polling
  booting : s.place.booting = true → s.trace.handled = []
  menu : s.place.booting = false → MenuInv s.shell.menu
  valid : s.place.booting = false → s.place ≠ .checkpoint → s.shell.recoveryValid = true
  prompt : s.place.booting = false → s.shell.mode ≠ .stopped →
    prompt s.shell.menu = promptAfter s.trace.input
  commands : s.trace.commands = commandsBy s.trace.input

namespace ShellInv

variable {s s' : Loop}

theorem input_eq (handled : s'.trace.handled = s.trace.handled) :
    s'.trace.input = s.trace.input := by
  unfold Trace.input
  rw [handled]

/-- A step that does not reach the shell. -/
theorem quiet (inv : ShellInv s) (shell : s'.shell = s.shell)
    (handled : s'.trace.handled = s.trace.handled) (commands : s'.trace.commands = s.trace.commands)
    (away : s'.place ≠ .away → s.place ≠ .away) (booting : s'.place.booting = s.place.booting)
    (checkpoint : s'.place ≠ .checkpoint → s.place ≠ .checkpoint) : ShellInv s' where
  polling := fun other => shell ▸ inv.polling (away other)
  booting := fun early => handled ▸ inv.booting (booting ▸ early)
  menu := fun late => shell ▸ inv.menu (booting ▸ late)
  valid := fun late other => shell ▸ inv.valid (booting ▸ late) (checkpoint other)
  prompt := by
    intro late goesOn
    rw [shell] at goesOn ⊢
    rw [input_eq handled]
    exact inv.prompt (booting ▸ late) goesOn
  commands := by
    rw [commands, input_eq handled]
    exact inv.commands

/-- A step of the loop that does not reach the shell. -/
theorem goOn (inv : ShellInv s) (shell : s'.shell = s.shell)
    (handled : s'.trace.handled = s.trace.handled) (commands : s'.trace.commands = s.trace.commands)
    (before : s.place.looping = true) (after : s'.place.looping = true) : ShellInv s' := by
  rcases s.place.looping_iff.mp before with ⟨late, other, away⟩
  rcases s'.place.looping_iff.mp after with ⟨late', _, _⟩
  exact inv.quiet shell handled commands (fun _ => away) (late'.trans late.symm) fun _ => other

theorem woken (inv : ShellInv s) : ShellInv s.woken := by
  unfold Loop.woken
  by_cases halted : s.place = .halted
  · rw [if_pos halted]
    exact inv.goOn rfl rfl rfl (halted ▸ rfl) rfl
  · rw [if_neg halted]
    exact inv

/-- The shell while `kernel_main` is in its loop -/
theorem system (inv : ShellInv s) (late : s.place.booting = false)
    (other : s.place ≠ .checkpoint) : SystemInv s.shell :=
  ⟨inv.menu late, inv.valid late other⟩

theorem access (inv : ShellInv s) {call : Drivers.Call} {keys : Drivers.System}
    (here : s.place.call = some call) : ShellInv (s.accessed call keys) := by
  have before : s.place.looping = true := by
    cases place : s.place with
    | hasKey => rfl
    | getchar => rfl
    | _ => rw [place] at here; cases here
  refine inv.goOn rfl rfl rfl before ?_
  unfold Loop.accessed
  dsimp only
  split
  · cases call with
    | hasKey =>
        dsimp only
        split
        all_goals rfl
    | getchar => rfl
  · exact before

theorem handle (inv : ShellInv s) {source : Source} {c : UInt8} {next : Place} (stats : Stats)
    (before : s.place.looping = true) (later : next.booting = false) :
    ShellInv (s.handle source stats c next) := by
  rcases s.place.looping_iff.mp before with ⟨late, other, away⟩
  have system := inv.system late other
  have goesOn : s.shell.mode ≠ .stopped := by
    rw [inv.polling away]
    decide
  have known := inv.prompt late goesOn
  have input : (s.handle source stats c next).trace.input = s.trace.input ++ [c] :=
    List.map_append
  constructor
  case polling =>
    intro here
    by_contra notPolling
    exact here (if_neg notPolling)
  case booting =>
    intro early
    unfold Loop.handle at early
    dsimp only at early
    split at early
    · rw [later] at early
      cases early
    · cases early
  case menu => exact fun _ => (system.polledKey stats c).menu
  case valid => exact fun _ _ => (system.polledKey stats c).valid
  case prompt =>
    intro _ goesOn'
    rw [input, Shell.promptAfter_concat, ← known]
    exact system.prompt_polledKey stats c goesOn'
  case commands =>
    have same : (if s.shell.menu.activeView = .menu ∧ Shell.IsEnter c then
        [Shell.commandOf s.shell.menu] else []) =
          commandKey (promptAfter s.trace.input) c := by
      rw [← known, system.menu.commandOf_eq]
      rfl
    rw [input, Shell.commandsBy_concat, ← inv.commands, ← same]
    rfl

theorem panicKey (inv : ShellInv s) (c : UInt8) (here : s.place = .away)
    (panicking : s.shell.mode = .panicking) :
    ShellInv { s with
      shell := s.shell.panicKey c
      place := if (s.shell.panicKey c).mode = .polling then .readRefresh else .away } := by
  have late : s.place.booting = false := by
    rw [here]
    rfl
  have system := inv.system late (by rw [here]; decide)
  have goesOn : s.shell.mode ≠ .stopped := by
    rw [panicking]
    decide
  constructor
  case polling =>
    intro elsewhere
    by_contra notPolling
    exact elsewhere (if_neg notPolling)
  case booting =>
    intro early
    dsimp only at early
    split at early
    all_goals cases early
  case menu => exact fun _ => (system.panicKey c).menu
  case valid => exact fun _ _ => (system.panicKey c).valid
  case prompt => exact fun _ _ => (Shell.prompt_panicKey c s.shell).trans (inv.prompt late goesOn)
  case commands => exact inv.commands

theorem initMenu (inv : ShellInv s) (here : s.place = .initMenu) :
    ShellInv { s with
      shell := { s.shell with menu := Shell.menuInit s.shell.menu.cmdBuf s.shell.menu.logHistory }
      place := .checkpoint } := by
  have nothing : s.trace.handled = [] := inv.booting (by rw [here]; rfl)
  have empty : (Shell.menuInit s.shell.menu.cmdBuf s.shell.menu.logHistory).cmdLen = 0 := by
    simp [Shell.menuInit]
  constructor
  case polling => exact fun _ => inv.polling (by rw [here]; decide)
  case booting => exact fun _ => nothing
  case menu => exact fun _ => MenuInv.empty empty
  case valid => exact fun _ other => absurd rfl other
  case prompt =>
    intro _ _
    unfold Trace.input Shell.prompt
    rw [Shell.line_eq_nil empty, nothing]
    simp [Shell.menuInit, promptAfter]
  case commands => exact inv.commands

theorem checkpoint (inv : ShellInv s) (here : s.place = .checkpoint) :
    ShellInv { s with
      shell := { s.shell with recoveryValid := true }
      place := .readRefresh } := by
  have late : s.place.booting = false := by
    rw [here]
    rfl
  constructor
  case polling => exact fun _ => inv.polling (by rw [here]; decide)
  case booting => exact fun early => absurd early Bool.false_ne_true
  case menu => exact fun _ => inv.menu late
  case valid => exact fun _ _ => rfl
  case prompt => exact fun _ goesOn => inv.prompt late goesOn
  case commands => exact inv.commands

theorem statement (inv : ShellInv s) (done : Loop.Statement s s') : ShellInv s' := by
  cases done with
  | panicKey c here panicking _ => exact inv.panicKey c here panicking
  | readStart here =>
      exact inv.quiet rfl rfl rfl (by simp [here]) (congrArg Place.booting here).symm
        (by simp [here])
  | @verify startTicks here =>
      refine inv.quiet rfl rfl rfl (by simp [here]) ?_ (by simp [here])
      dsimp only
      rw [here]
      split
      all_goals rfl
  | readWait here =>
      exact inv.quiet rfl rfl rfl (by simp [here]) (congrArg Place.booting here).symm
        (by simp [here])
  | @wait waitTicks here =>
      refine inv.quiet rfl rfl rfl (by simp [here]) ?_ (by simp [here])
      dsimp only
      rw [here]
      split
      all_goals rfl
  | initMenu here => exact inv.initMenu here
  | checkpoint here => exact inv.checkpoint here
  | readRefresh here => exact inv.goOn rfl rfl rfl (here ▸ rfl) rfl
  | access here _ _ _ => exact inv.access here
  | pressed here stats =>
      split
      · exact inv.handle stats (here ▸ rfl) rfl
      · exact inv.goOn rfl rfl rfl (here ▸ rfl) rfl
  | hasChar here =>
      refine inv.goOn rfl rfl rfl (here ▸ rfl) ?_
      dsimp only
      split
      all_goals rfl
  | getc here =>
      refine inv.goOn rfl rfl rfl (here ▸ rfl) ?_
      dsimp only
      split
      all_goals rfl
  | data here waiting => exact inv.goOn rfl rfl rfl (here ▸ rfl) rfl
  | typed here stats =>
      split
      · exact inv.handle stats (here ▸ rfl) rfl
      · exact inv.goOn rfl rfl rfl (here ▸ rfl) rfl
  | readNow here => exact inv.goOn rfl rfl rfl (here ▸ rfl) rfl
  | setIdle here => exact inv.goOn rfl rfl rfl (here ▸ rfl) rfl
  | @refresh now here =>
      unfold Loop.refreshed
      split
      all_goals exact inv.goOn rfl rfl rfl (here ▸ rfl) rfl
  | hlt here => exact inv.goOn rfl rfl rfl (here ▸ rfl) rfl

theorem step (inv : ShellInv s) (step : Loop.Step s s') : ShellInv s' := by
  have same : ∀ {s' : Loop}, s'.shell = s.shell → s'.trace.handled = s.trace.handled →
      s'.trace.commands = s.trace.commands → s'.place = s.place → ShellInv s' := by
    intro s' shell handled commands place
    exact inv.quiet shell handled commands (place ▸ id) (congrArg Place.booting place) (place ▸ id)
  cases step with
  | statement done => exact inv.statement done
  | keyboardIrq scancode enabled => exact woken (same rfl rfl rfl rfl)
  | timerIrq enabled => exact woken (same rfl rfl rfl rfl)
  | arrives byte =>
      unfold Loop.arrives
      split
      all_goals exact same rfl rfl rfl rfl

end ShellInv

theorem shellInv_start (buf : Int → UInt8) (cmdBuf : Nat → UInt8)
    (logHistory : Nat → Nat → UInt8) : ShellInv (Loop.start buf cmdBuf logHistory) where
  polling := fun _ => rfl
  booting := fun _ => rfl
  menu := fun late => absurd late.symm Bool.false_ne_true
  valid := fun late => absurd late.symm Bool.false_ne_true
  prompt := fun late => absurd late.symm Bool.false_ne_true
  commands := rfl

/-! ## Runs -/

theorem Loop.Reachable.paths {s : Loop} (reachable : s.Reachable) : PathInv s ∧ ShellInv s := by
  rcases reachable with ⟨buf, cmdBuf, logHistory, run⟩
  induction run with
  | refl => exact ⟨pathInv_start buf cmdBuf logHistory, shellInv_start buf cmdBuf logHistory⟩
  | tail _ step inductionHypothesis =>
      exact ⟨inductionHypothesis.1.step step, inductionHypothesis.2.step step⟩

/-- Whenever interrupts and bytes arrive and commands fault, the input reaches the shell in
order, and the shell does what its reference does with it.  Of the serial line that is what the
buffer of the port took; the view and the line are meant while the shell has not stopped. -/
theorem reachable_inputPath {s : Loop} (reachable : s.Reachable) : InputPath s := by
  rcases reachable.paths with ⟨path, shell⟩
  constructor
  case keyboard => rw [← path.keyboard, ← path.keys.fifo]
  case serial => exact path.serial
  case shell => exact shell.prompt
  case commands => exact shell.commands

/-! ## A small run -/

namespace Loop

/-- The loop after `n` ticks in which nothing else happened -/
def waited (n : Nat) (s : Loop) : Loop :=
  { s with
    ticks := s.ticks + n
    monitor := sysmonTick^[n] s.monitor
    trace := { s.trace with
      time := s.trace.time + n
      calls := s.trace.calls ++ List.replicate n .tick } }

theorem timerIrq_eq {s : Loop} (awake : s.place ≠ .halted) (room : s.ticks + 1 < 2 ^ 64) :
    s.timerIrq = s.waited 1 := by
  unfold timerIrq woken
  dsimp only
  rw [if_neg awake, Machine.wrap64_of_lt room]
  rfl

theorem waited_succ (n : Nat) (s : Loop) : (s.waited n).waited 1 = s.waited (n + 1) := by
  unfold waited
  dsimp only
  rw [List.append_assoc, ← List.replicate_add, ← Function.iterate_add_apply, Nat.add_comm 1 n,
    Nat.add_assoc, Nat.add_assoc]

theorem reaches_waited {s : Loop} (enabled : s.place ≠ .away) (awake : s.place ≠ .halted)
    (n : Nat) (room : s.ticks + n < 2 ^ 64) : Relation.ReflTransGen Step s (s.waited n) := by
  induction n with
  | zero =>
      have same : s.waited 0 = s := by
        unfold waited
        simp
      rw [same]
  | succ n inductionHypothesis =>
      have step : Step (s.waited n) (s.waited n).timerIrq := Step.timerIrq enabled
      have moved : (s.waited n).timerIrq = s.waited (n + 1) :=
        (timerIrq_eq (s := s.waited n) awake room).trans (waited_succ n s)
      rw [moved] at step
      exact (inductionHypothesis (Nat.lt_of_succ_lt room)).tail step

theorem Statement.verified {s : Loop} {startTicks : Nat} (here : s.place = .verify startTicks)
    (elapsed : ¬ Within 50 s.ticks startTicks) : Statement s { s with place := .readWait } := by
  have step := Statement.verify here
  rw [if_neg elapsed] at step
  exact step

theorem Statement.windowed {s : Loop} {waitTicks : Nat} (here : s.place = .wait waitTicks)
    (elapsed : ¬ Within 1100 s.ticks waitTicks) : Statement s { s with place := .initMenu } := by
  have step := Statement.wait here
  rw [if_neg elapsed] at step
  exact step

/-- In front of the loop, 1150 ticks after `sti` -/
def booted : Loop :=
  { (start (fun _ => 0) (fun _ => 0) fun _ _ => 0).waited 1150 with
    shell := Shell.System.init (fun _ => 0) fun _ _ => 0
    place := .readRefresh }

theorem reaches_booted :
    Relation.ReflTransGen Step (start (fun _ => 0) (fun _ => 0) fun _ _ => 0) booted := by
  let initial : Loop := start (fun _ => 0) (fun _ => 0) fun _ _ => 0
  have verifying : Step initial { initial with place := .verify 0 } := .statement (.readStart rfl)
  have verified := (Relation.ReflTransGen.single verifying).trans
    (reaches_waited (by simp) (by simp) 50 (by decide : 0 + 50 < 2 ^ 64))
  have waiting := (verified.tail (.statement (.verified rfl (by decide)))).tail
    (.statement (.readWait rfl))
  have windowed := waiting.trans
    (reaches_waited (by simp) (by simp) 1100 (by decide : 0 + 50 + 1100 < 2 ^ 64))
  have done := ((windowed.tail (.statement (.windowed rfl (by decide)))).tail
    (.statement (.initMenu rfl))).tail (.statement (.checkpoint rfl))
  convert done using 1
  simp only [booted, waited, initial, start, ← Function.iterate_add_apply, List.append_assoc,
    ← List.replicate_add, Nat.add_assoc]
  rfl

end Loop

/-- A key arrives while the loop looks for one, and Enter on the serial line while it is
handled. -/
theorem reachable_inputPath_small :
    ∃ s, InputPath s ∧ s.trace.commands = [[97]] ∧ s.trace.input = [97, 10] ∧
      s.trace.received = [13] := by
  refine ⟨_, reachable_inputPath ⟨_, _, _, Loop.reaches_booted.tail (.statement (.readRefresh rfl))
    |>.tail (.statement (.access rfl (.tailFirst .hasKey rfl) (by decide) rfl))
    |>.tail (.keyboardIrq 0x1E (by decide))
    |>.tail (.statement (.access rfl (.thenHead rfl) (by decide) trivial))
    |>.tail (.statement (.access rfl (.tailFirst .getchar rfl) (by decide) rfl))
    |>.tail (.statement (.access rfl (.thenHead rfl) (by decide) rfl))
    |>.tail (.statement (.access rfl (.readIndex rfl) (by decide) rfl))
    |>.tail (.statement (.access rfl (.readCell rfl) (by decide) rfl))
    |>.tail (.arrives 13)
    |>.tail (.statement (.access rfl (.readTail rfl) (by decide) rfl))
    |>.tail (.statement (.access rfl (.writeTail rfl) (by decide) trivial))
    |>.tail (.statement (.pressed rfl ⟨0, 0, 0⟩))
    |>.tail (.statement (.access rfl (.tailFirst .hasKey rfl) (by decide) rfl))
    |>.tail (.statement (.access rfl (.thenHead rfl) (by decide) trivial))
    |>.tail (.statement (.hasChar rfl)) |>.tail (.statement (.getc rfl))
    |>.tail (.statement (.data rfl rfl))
    |>.tail (.statement (.typed rfl ⟨0, 0, 0⟩))⟩, ?_, ?_, ?_⟩
  · decide +kernel
  · decide +kernel
  · decide +kernel

end Kernel
end AuraKernel
