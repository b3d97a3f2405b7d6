import Handheld.Proofs.Game.Display
import Handheld.Proofs.Game.Flow

namespace Handheld

namespace Statement

variable {ρ : Type} [RandomSource ρ] {stage : Stage} {machine after : Machine ρ} {statement : Statement}
  {block inner ran due : List Statement}

theorem display_of_eval {settings : Settings} {expression : Expression}
    {result : Except ExprError Value} (h : machine.eval settings expression = (result, after)) :
    after.display = machine.display := by
  obtain ⟨_, rfl⟩ := exists_setRandom_of_eval h
  rfl

theorem Step.size (h : Step stage machine statement inner after) :
    after.display.size = machine.display.size := by
  cases h with
  | assign heval => exact (congrArg Display.size (display_of_eval heval) :)
  | clear => exact Display.size_clear machine.display
  | display hx hy =>
      refine (Display.size_overlay _ _ _ _).trans ?_
      rw [display_of_eval hy, display_of_eval hx]
  | ifTrue heval | ifFalse heval => exact congrArg Display.size (display_of_eval heval)

theorem Runs.size (h : Runs stage machine block ran after due) :
    after.display.size = machine.display.size := by
  induction h with
  | refl => rfl
  | step hstep _ ih => exact ih.trans hstep.size

theorem size_runBlock (stage : Stage) (machine : Machine ρ) (block : List Statement) :
    (runBlock stage machine block).2.display.size = machine.display.size := by
  obtain ⟨ran, before, due, hruns, hends⟩ := stops stage machine block
  generalize runBlock stage machine block = result at hends ⊢
  cases hends with
  | finished | moved => exact hruns.size
  | failed hfails =>
      obtain ⟨random, rfl⟩ := hfails.exists_setRandom
      exact hruns.size

end Statement

namespace Game

-- All that can happen to a game: it is called or reset, or something in it is set from outside.
inductive Event where
  | call (call : Call)
  | assign (name : String) (value : Value)
  | moveTo (state : String)
  | reset

variable {ρ : Type}

def withRandom (game : Game ρ) (random : ρ) : Game ρ := game.withMachine (game.machine.setRandom random)

-- What can be seen of a game.
structure Snapshot where
  current : String
  memory : Dict String Value
  display : Display

def snapshot (game : Game ρ) : Snapshot :=
  ⟨game.machine.current, game.machine.memory, game.machine.display⟩

variable [RandomSource ρ]

def handle (game : Game ρ) : Event → Outcome × Game ρ
  | .call call => game.call call
  | .assign name value => (.finished, game.withMachine (game.machine.assign name value))
  | .moveTo state => (.finished, game.withMachine (game.machine.moveTo state))
  | .reset => (.finished, game.reset)

-- A failed call is no end: what comes later finds the game where the failure has left it.
def after (game : Game ρ) (events : List Event) : Game ρ :=
  events.foldl (fun game event => (game.handle event).2) game

def transcript (game : Game ρ) : List Event → List (Outcome × Snapshot)
  | [] => []
  | event :: events =>
    let (outcome, game) := game.handle event
    (outcome, game.snapshot) :: game.transcript events

-- What is fixed for good when a game is built.
structure BuiltFrom (program : Program) (settings : Settings) (game : Game ρ) : Prop where
  program_eq : game.program = program
  settings_eq : game.settings = settings
  size_eq : game.machine.display.size = (settings.width, settings.height)

variable {program : Program} {settings : Settings} {game : Game ρ}

omit [RandomSource ρ] in
theorem builtFrom_start (program : Program) (settings : Settings) (source : ρ) :
    (Game.start program settings source).BuiltFrom program settings :=
  ⟨rfl, rfl, rfl⟩

omit [RandomSource ρ] in
theorem BuiltFrom.withMachine (h : game.BuiltFrom program settings) {machine : Machine ρ}
    (hsize : machine.display.size = game.machine.display.size) :
    (game.withMachine machine).BuiltFrom program settings :=
  ⟨h.program_eq, h.settings_eq, hsize.trans h.size_eq⟩

theorem BuiltFrom.call (h : game.BuiltFrom program settings) (call : Call) :
    (game.call call).2.BuiltFrom program settings := by
  cases hstate : game.state? with
  | error error => rwa [call_of_unknown hstate]
  | ok state =>
      rw [call_of_state hstate]
      exact h.withMachine (Statement.size_runBlock game.stage game.machine _)

theorem BuiltFrom.handle (h : game.BuiltFrom program settings) (event : Event) :
    (game.handle event).2.BuiltFrom program settings := by
  cases event with
  | call call => exact h.call call
  | assign | moveTo => exact h.withMachine rfl
  | reset => exact h.withMachine (Display.size_clear _)

theorem BuiltFrom.after (h : game.BuiltFrom program settings) (events : List Event) :
    (game.after events).BuiltFrom program settings := by
  induction events generalizing game with
  | nil => exact h
  | cons event events ih => exact ih (h.handle event)

omit [RandomSource ρ] in
-- Whatever has happened to a game with valid settings, all pixels of its display have a cell.
theorem BuiltFrom.fits (h : game.BuiltFrom program settings) (hvalid : settings.fault? = none) :
    game.machine.display.Fits :=
  Display.fits_of_size hvalid h.size_eq

omit [RandomSource ρ] in
theorem BuiltFrom.reset_eq (h : game.BuiltFrom program settings) (other : ρ) :
    game.reset = (Game.start program settings other).withRandom game.machine.random := by
  obtain ⟨_, _, machine⟩ := game
  obtain ⟨rfl, rfl, hsize⟩ := h
  simp only [reset, Game.withMachine, Display.clear_eq_blank hsize]
  rfl

-- Whatever has happened to a game, a reset makes it a new one but for its random numbers, which go on.
-- So from then on it answers as a new game does that has come to these random numbers.
theorem reset_forgets (program : Program) (settings : Settings) (source other : ρ)
    (history : List Event) :
    let game := (Game.start program settings source).after history
    let fresh := (Game.start program settings other).withRandom game.machine.random
    game.reset = fresh ∧ game.reset.snapshot = fresh.snapshot ∧
      ∀ events, game.reset.transcript events = fresh.transcript events := by
  intro game fresh
  have hbuilt : game.BuiltFrom program settings := (builtFrom_start program settings source).after history
  have hreset : game.reset = fresh := hbuilt.reset_eq other
  exact ⟨hreset, congrArg snapshot hreset, fun events => congrArg (transcript · events) hreset⟩

end Game

end Handheld
