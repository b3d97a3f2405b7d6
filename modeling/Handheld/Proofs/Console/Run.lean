import Handheld.Console.Basic
import Handheld.Proofs.Game.Names
import Mathlib.Data.List.DropRight

namespace Handheld

theorem Display.litCount_clear (display : Display) : display.clear.litCount = 0 := by
  simp [litCount, clear, blank, List.count_replicate]

def Outcome.hasFailed : Outcome → Bool
  | failed _ => true
  | finished | moved => false

namespace Console

-- What happens to a console: a frame is due, or there is a key event.
inductive Event where
  | tick
  | key (event : KeyEvent)

namespace Event

def action? (bindings : Bindings) : Event → Option Action
  | tick => none
  | key event => bindings.action? event

-- What the game is called for: the frame, or the button of the key.
def call? (bindings : Bindings) : Event → Option Call
  | tick => some .tick
  | key event => match bindings.action? event with
    | some (.press button) => some (.press button)
    | _ => none

def quits (bindings : Bindings) (event : Event) : Bool := event.action? bindings = some .quit

end Event

-- To play is neither to restart nor to quit.
theorem action?_of_call? {bindings : Bindings} {event : Event} {call : Call}
    (h : event.call? bindings = some call) :
    event.action? bindings = none ∨ ∃ button, event.action? bindings = some (.press button) := by
  cases event with
  | tick => exact .inl rfl
  | key event =>
      simp only [Event.call?] at h
      split at h
      · rename_i button haction
        exact .inr ⟨button, haction⟩
      · simp at h

variable {ρ : Type}

-- Takes the game back to its beginning: the reset key, or the power key, of a console that is on.
def restarts (console : Console ρ) (event : Event) : Bool :=
  console.powered && (event.action? console.bindings = some .reset ||
    event.action? console.bindings = some .power)

-- Lets a console go on that is off or halted.
def wakes (console : Console ρ) (event : Event) : Bool :=
  event.action? console.bindings = some .power || console.restarts event

def quitIf (console : Console ρ) (wanted : Bool) : Console ρ :=
  { console with quitting := console.quitting || wanted }

-- A console as the power switch leaves it.
structure IsCleared (console : Console ρ) : Prop where
  error : console.error = none
  ticks : console.ticks = 0
  memory : console.game.machine.memory = .empty
  litCount : console.game.machine.display.litCount = 0
  current : console.game.machine.current = console.game.program.initial

theorem isCleared_restart (console : Console ρ) : console.restart.IsCleared :=
  ⟨rfl, rfl, rfl, Display.litCount_clear _, rfl⟩

theorem powered_of_isRunning {console : Console ρ} (h : console.isRunning = true) :
    console.powered = true :=
  (Bool.and_eq_true_iff.mp h).1

variable [RandomSource ρ] {console next : Console ρ} {event : Event}

def handle (console : Console ρ) : Event → Console ρ
  | .tick => console.tick
  | .key event => (console.handleKey event).2

def after (console : Console ρ) (events : List Event) : Console ρ := events.foldl handle console

-- A frame in which the game runs to its end.
def advances (console : Console ρ) (event : Event) : Bool :=
  match event with
  | .tick => console.isRunning && !console.game.tick.1.hasFailed
  | .key _ => false

-- All that an event can do.
inductive Step (console : Console ρ) (event : Event) : Console ρ → Prop
  | ticked {outcome : Outcome} {game : Game ρ} : event = .tick → console.isRunning = true →
      console.game.tick = (outcome, game) → outcome.hasFailed = false →
      Step console event { console with game := game, clock := console.clock + 1 }
  | pressed {button : Button} {outcome : Outcome} {game : Game ρ} :
      event.action? console.bindings = some (.press button) → console.isRunning = true →
      console.game.press button = (outcome, game) → outcome.hasFailed = false →
      Step console event { console with game := game }
  | halted {call : Call} {error : RuntimeError} {game : Game ρ} :
      event.call? console.bindings = some call → console.isRunning = true →
      console.game.call call = (.failed error, game) →
      Step console event { console with game := game, error := some error }
  | switchedOff : event.action? console.bindings = some .power → console.powered = true →
      Step console event { console.restart with powered := false }
  | switchedOn : event.action? console.bindings = some .power → console.powered = false →
      Step console event { console with powered := true }
  | reset : event.action? console.bindings = some .reset → console.powered = true →
      Step console event console.restart
  | quit : event.action? console.bindings = some .quit → Step console event console.quit
  | ignored : (∀ call, event.call? console.bindings = some call → console.isRunning = false) →
      event.quits console.bindings = false → console.wakes event = false → Step console event console

theorem step_tick (console : Console ρ) : console.Step .tick console.tick := by
  unfold tick
  split
  · rename_i hrunning
    rcases hgame : console.game.tick with ⟨_ | _ | error, game⟩
    · exact .ticked rfl hrunning hgame rfl
    · exact .ticked rfl hrunning hgame rfl
    · have hcall : console.game.call .tick = (.failed error, game) := hgame
      exact .halted rfl hrunning hcall
  · rename_i hrunning
    exact .ignored (fun _ _ => by simpa using hrunning) rfl (by simp [wakes, restarts, Event.action?])

theorem step_press {event : KeyEvent} {button : Button}
    (haction : console.bindings.action? event = some (.press button)) (hrunning : console.isRunning = true) :
    console.Step (.key event) (console.press button) := by
  unfold press
  rcases hgame : console.game.press button with ⟨_ | _ | error, game⟩
  · exact .pressed haction hrunning hgame rfl
  · exact .pressed haction hrunning hgame rfl
  · have hcall : console.game.call (.press button) = (.failed error, game) := hgame
    exact .halted (by simp [Event.call?, haction]) hrunning hcall

theorem step_ignored {event : KeyEvent}
    (hpress : ∀ button, console.bindings.action? event = some (.press button) → console.isRunning = false)
    (hquit : console.bindings.action? event ≠ some .quit)
    (hpower : console.bindings.action? event ≠ some .power)
    (hreset : console.bindings.action? event = some .reset → console.powered = false) :
    console.Step (.key event) console := by
  refine .ignored ?_ (decide_eq_false hquit) ?_
  · intro call hcall
    simp only [Event.call?] at hcall
    split at hcall
    · rename_i button haction
      exact hpress button haction
    · simp at hcall
  · simp only [wakes, restarts, Event.action?]
    grind

theorem step_handleKey (console : Console ρ) (event : KeyEvent) :
    console.Step (.key event) (console.handleKey event).2 := by
  unfold handleKey
  cases haction : console.bindings.action? event with
  | none => exact step_ignored (by simp [haction]) (by simp [haction]) (by simp [haction]) (by simp [haction])
  | some action =>
      cases action with
      | quit => exact .quit haction
      | power =>
          cases hpowered : console.powered with
          | true => simpa [switchPower, hpowered] using .switchedOff haction hpowered
          | false => simpa [switchPower, hpowered] using .switchedOn haction hpowered
      | reset =>
          cases hpowered : console.powered with
          | true => exact .reset haction hpowered
          | false =>
              have hreset : console.bindings.action? event = some .reset → console.powered = false :=
                fun _ => hpowered
              exact step_ignored (by simp [haction]) (by simp [haction]) (by simp [haction]) hreset
      | press button =>
          cases hrunning : console.isRunning with
          | true => exact step_press haction hrunning
          | false =>
              have hpress : ∀ button, console.bindings.action? event = some (.press button) →
                  console.isRunning = false := fun _ _ => hrunning
              exact step_ignored hpress (by simp [haction]) (by simp [haction]) (by simp [haction])

theorem step_handle (console : Console ρ) (event : Event) : console.Step event (console.handle event) := by
  cases event with
  | tick => exact step_tick console
  | key event => exact step_handleKey console event

omit [RandomSource ρ] in
theorem quits_of_call? {call : Call} (h : event.call? console.bindings = some call) :
    event.quits console.bindings = false := by
  rcases action?_of_call? h with haction | ⟨button, haction⟩ <;> simp [Event.quits, haction]

omit [RandomSource ρ] in
theorem restarts_of_call? {call : Call} (h : event.call? console.bindings = some call) :
    console.restarts event = false := by
  rcases action?_of_call? h with haction | ⟨button, haction⟩ <;> simp [restarts, haction]

theorem program_of_call (call : Call) {before after : Game ρ} {outcome : Outcome}
    (h : before.call call = (outcome, after)) : after.program = before.program := by
  have hprogram := Game.program_call before call
  rwa [h] at hprogram

-- The keys and the program stay as they are.
theorem Step.bindings_eq (h : console.Step event next) : next.bindings = console.bindings := by
  cases h <;> rfl

theorem Step.program_eq (h : console.Step event next) : next.game.program = console.game.program := by
  cases h with
  | ticked _ _ hgame => exact program_of_call .tick hgame
  | @pressed button _ _ _ _ hgame => exact program_of_call (.press button) hgame
  | halted _ _ hgame => exact program_of_call _ hgame
  | switchedOff | switchedOn | reset | quit | ignored => rfl

theorem Step.isCleared (h : console.Step event next)
    (hconsole : console.powered = false → console.IsCleared) :
    next.powered = false → next.IsCleared := by
  intro hoff
  cases h with
  | ticked _ hrunning | pressed _ hrunning | halted _ hrunning =>
      exact absurd hoff (by simp [powered_of_isRunning hrunning])
  | switchedOff =>
      obtain ⟨herror, hticks, hmemory, hlit, hcurrent⟩ := isCleared_restart console
      exact ⟨herror, hticks, hmemory, hlit, hcurrent⟩
  | switchedOn => simp at hoff
  | reset _ hon => exact absurd hoff (by simp [restart, hon])
  | quit =>
      obtain ⟨herror, hticks, hmemory, hlit, hcurrent⟩ := hconsole hoff
      exact ⟨herror, hticks, hmemory, hlit, hcurrent⟩
  | ignored => exact hconsole hoff

theorem Step.quitting_eq (h : console.Step event next) :
    next.quitting = (console.quitting || event.quits console.bindings) := by
  cases h with
  | ticked hevent =>
      subst hevent
      simp [Event.quits, Event.action?]
  | pressed haction | switchedOff haction | switchedOn haction | reset haction =>
      simp [Event.quits, haction, restart]
  | halted hcall => simp [quits_of_call? hcall]
  | quit haction => simp [Event.quits, haction, Console.quit]
  | ignored _ hquits => simp [hquits]

theorem advances_of_action? {action : Action} (h : event.action? console.bindings = some action) :
    console.advances event = false := by
  cases event with
  | tick => simp [Event.action?] at h
  | key event => rfl

theorem Step.clock_eq (h : console.Step event next) :
    next.clock = if console.restarts event then 0
      else console.clock + if console.advances event then 1 else 0 := by
  cases h with
  | ticked hevent hrunning hgame hok =>
      subst hevent
      simp [restarts, advances, Event.action?, hrunning, hgame, hok]
  | pressed haction => simp [restarts, haction, advances_of_action? haction]
  | switchedOff haction hon | reset haction hon => simp [restarts, haction, hon, restart]
  | switchedOn haction hoff => simp [restarts, hoff, advances_of_action? haction]
  | quit haction => simp [restarts, haction, advances_of_action? haction, Console.quit]
  | @halted call error game hcall hrunning hgame =>
      rw [restarts_of_call? hcall]
      cases event with
      | tick =>
          obtain rfl : .tick = call := Option.some.inj hcall
          simp [advances, show console.game.tick = _ from hgame, Outcome.hasFailed]
      | key event => simp [advances]
  | ignored hcall _ hwakes =>
      have hrestarts : console.restarts event = false := (Bool.or_eq_false_iff.mp hwakes).2
      rw [hrestarts]
      cases event with
      | tick => simp [advances, hcall .tick rfl]
      | key event => simp [advances]

-- A console that does not run takes note of no more than a wish to quit.
theorem Step.eq_quitIf (h : console.Step event next) (hrunning : console.isRunning = false)
    (hwakes : console.wakes event = false) : next = console.quitIf (event.quits console.bindings) := by
  cases h with
  | ticked _ hon | pressed _ hon | halted _ hon => simp [hrunning] at hon
  | switchedOff haction | switchedOn haction => simp [wakes, haction] at hwakes
  | reset haction hon => simp [wakes, restarts, haction, hon] at hwakes
  | quit haction => simp [quitIf, Event.quits, haction, Console.quit]
  | ignored _ hquits => simp [quitIf, hquits]

theorem bindings_after (console : Console ρ) (events : List Event) :
    (console.after events).bindings = console.bindings := by
  induction events generalizing console with
  | nil => rfl
  | cons event events ih => exact (ih _).trans (step_handle console event).bindings_eq

theorem program_after (console : Console ρ) (events : List Event) :
    (console.after events).game.program = console.game.program := by
  induction events generalizing console with
  | nil => rfl
  | cons event events ih => exact (ih _).trans (step_handle console event).program_eq

theorem isCleared_after (h : console.powered = false → console.IsCleared) (events : List Event) :
    (console.after events).powered = false → (console.after events).IsCleared := by
  induction events generalizing console with
  | nil => exact h
  | cons event events ih => exact ih ((step_handle console event).isCleared h)

theorem quitting_after (h : console.quitting = true) (events : List Event) :
    (console.after events).quitting = true := by
  induction events generalizing console with
  | nil => exact h
  | cons event events ih => exact ih (by simp [(step_handle console event).quitting_eq, h])

theorem after_eq_quitIf (hrunning : console.isRunning = false) {events : List Event}
    (hwakes : ∀ event ∈ events, console.wakes event = false) :
    console.after events = console.quitIf (events.any (·.quits console.bindings)) := by
  induction events generalizing console with
  | nil => simp [after, quitIf]
  | cons event events ih =>
      obtain ⟨hevent, hevents⟩ := List.forall_mem_cons.mp hwakes
      have hnext : console.handle event = console.quitIf (event.quits console.bindings) :=
        (step_handle console event).eq_quitIf hrunning hevent
      -- The wish to quit changes nothing about what the later events do.
      have hrest : (console.quitIf (event.quits console.bindings)).after events =
          (console.quitIf _).quitIf (events.any (·.quits console.bindings)) := ih hrunning hevents
      calc
        console.after (event :: events) = (console.handle event).after events := rfl
        _ = (console.quitIf _).quitIf (events.any (·.quits console.bindings)) := by rw [hnext, hrest]
        _ = console.quitIf ((event :: events).any (·.quits console.bindings)) := by
          simp [quitIf, Bool.or_assoc]

-- The events with the consoles that they happen to.
def trace (console : Console ρ) : List Event → List (Console ρ × Event)
  | [] => []
  | event :: events => (console, event) :: (console.handle event).trace events

-- What comes after the last restart.
def sinceRestart (trace : List (Console ρ × Event)) : List (Console ρ × Event) :=
  trace.rtakeWhile fun entry => !entry.1.restarts entry.2

theorem trace_concat (console : Console ρ) (events : List Event) (event : Event) :
    console.trace (events ++ [event]) = console.trace events ++ [(console.after events, event)] := by
  induction events generalizing console with
  | nil => rfl
  | cons first events ih => exact congrArg _ (ih (console.handle first))

theorem after_concat (console : Console ρ) (events : List Event) (event : Event) :
    console.after (events ++ [event]) = (console.after events).handle event := by
  simp [after]

-- The frames in which the game has run to its end since the last restart.
def framesSinceRestart (console : Console ρ) (events : List Event) : Nat :=
  (sinceRestart (console.trace events)).countP fun entry => entry.1.advances entry.2

theorem length_trace (console : Console ρ) (events : List Event) :
    (console.trace events).length = events.length := by
  induction events generalizing console with
  | nil => rfl
  | cons first events ih => exact congrArg _ (ih (console.handle first))

theorem framesSinceRestart_le (console : Console ρ) (events : List Event) :
    console.framesSinceRestart events ≤ events.length := by
  rw [← console.length_trace events]
  exact List.countP_le_length.trans (List.rtakeWhile_suffix _ _).length_le

theorem clock_after (h : console.clock = 0) (events : List Event) :
    (console.after events).clock = .ofNat (console.framesSinceRestart events) := by
  induction events using List.reverseRecOn with
  | nil => simpa [after, framesSinceRestart, trace, sinceRestart] using h
  | append_singleton events event ih =>
      rw [after_concat, (step_handle _ event).clock_eq, framesSinceRestart, trace_concat, sinceRestart,
        List.rtakeWhile_concat]
      cases hrestarts : (console.after events).restarts event with
      | true => simp
      | false =>
          cases hadvances : (console.after events).advances event <;>
            simp [ih, framesSinceRestart, sinceRestart, List.countP_append, hadvances]

theorem ticks_after (h : console.clock = 0) (events : List Event) :
    (console.after events).ticks = console.framesSinceRestart events % UInt64.size := by
  rw [ticks, clock_after h, UInt64.toNat_ofNat']

-- The count is exact until there are more events than a word can count.
theorem ticks_after_of_lt (h : console.clock = 0) {events : List Event} (hlt : events.length < UInt64.size) :
    (console.after events).ticks = console.framesSinceRestart events := by
  rw [ticks_after h]
  exact Nat.mod_eq_of_lt (Nat.lt_of_le_of_lt (console.framesSinceRestart_le events) hlt)

theorem handleKey_of_refused {event : KeyEvent} (h : (console.handleKey event).1 = false) :
    (console.handleKey event).2 = console := by
  unfold handleKey at h ⊢
  cases haction : console.bindings.action? event with
  | none => rfl
  | some action =>
      rw [haction] at h
      cases action with
      | quit | power => simp at h
      | reset =>
          cases hpowered : console.powered with
          | true => simp [hpowered] at h
          | false => simp
      | press button =>
          cases hrunning : console.isRunning with
          | true => simp [hrunning] at h
          | false => simp

omit [RandomSource ρ] in
theorem wakes_eq_false (hpower : event.action? console.bindings ≠ some .power)
    (hreset : event.action? console.bindings = some .reset → console.powered = false) :
    console.wakes event = false := by
  by_cases haction : event.action? console.bindings = some .reset
  · simp [wakes, restarts, haction, hreset haction]
  · simp [wakes, restarts, haction, hpower]

theorem handle_of_call? {call : Call} (hrunning : console.isRunning = false)
    (hcall : event.call? console.bindings = some call) : console.handle event = console := by
  have hwakes : console.wakes event = false := by
    rcases action?_of_call? hcall with haction | ⟨button, haction⟩ <;>
      exact wakes_eq_false (by simp [haction]) (by simp [haction])
  rw [(step_handle console event).eq_quitIf hrunning hwakes, quits_of_call? hcall]
  simp [quitIf]

-- What can be said of a console that was started with a game, after any events.
structure Sound (game : Game ρ) (bindings : Bindings) (history : List Event) (console : Console ρ) :
    Prop where
  bindings_eq : console.bindings = bindings
  program_eq : console.game.program = game.program
  isCleared : console.powered = false → console.IsCleared
  powered_of_error : console.error.isSome → console.powered = true
  halted_handle : console.error.isSome → ∀ event call, event.call? bindings = some call →
    console.handle event = console
  halted_after : console.error.isSome → ∀ events : List Event,
    (∀ event ∈ events, event.action? bindings ≠ some .reset ∧ event.action? bindings ≠ some .power) →
      console.after events = console.quitIf (events.any (·.quits bindings))
  ticks_mod : console.ticks = (start game bindings).framesSinceRestart history % UInt64.size
  ticks_eq : history.length < UInt64.size → console.ticks = (start game bindings).framesSinceRestart history
  refused : ∀ event, (console.handleKey event).1 = false → (console.handleKey event).2 = console
  quitting : console.quitting = true → ∀ events, (console.after events).quitting = true
  off_after : console.powered = false → ∀ events : List Event,
    (∀ event ∈ events, event.action? bindings ≠ some .power) →
      console.after events = console.quitIf (events.any (·.quits bindings))

theorem sound_after (game : Game ρ) (bindings : Bindings) (history : List Event) :
    Sound game bindings history ((start game bindings).after history) := by
  have hstart : (start game bindings).powered = false → (start game bindings).IsCleared := by
    simp [start]
  have hzero : (start game bindings).clock = 0 := rfl
  have hcleared := isCleared_after hstart history
  have hbindings : ((start game bindings).after history).bindings = bindings := bindings_after _ history
  have hprogram : ((start game bindings).after history).game.program = game.program :=
    program_after _ history
  have hmod := ticks_after hzero history
  have hticks (hlt : history.length < UInt64.size) := ticks_after_of_lt hzero hlt
  generalize (start game bindings).after history = console at hcleared hbindings hprogram hmod hticks ⊢
  subst hbindings
  have hpowered (herror : console.error.isSome) : console.powered = true := by
    by_contra hoff
    simp [(hcleared (by simpa using hoff)).error] at herror
  have hhalted (herror : console.error.isSome) : console.isRunning = false := by
    simp [isRunning, Option.isNone_eq_false_iff.mpr herror]
  have hoff (hpowered : console.powered = false) : console.isRunning = false := by
    simp [isRunning, hpowered]
  refine ⟨rfl, hprogram, hcleared, hpowered, ?_, ?_, hmod, hticks, ?_, ?_, ?_⟩
  · exact fun herror event call hcall => handle_of_call? (hhalted herror) hcall
  · intro herror events hevents
    refine after_eq_quitIf (hhalted herror) fun event hevent => ?_
    obtain ⟨hreset, hpower⟩ := hevents event hevent
    exact wakes_eq_false hpower fun haction => absurd haction hreset
  · exact fun event => handleKey_of_refused
  · exact fun hquitting => quitting_after hquitting
  · intro hpowered events hevents
    exact after_eq_quitIf (hoff hpowered) fun event hevent =>
      wakes_eq_false (hevents event hevent) fun _ => hpowered

end Console

end Handheld
