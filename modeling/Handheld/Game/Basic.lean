import Handheld.Game.Button
import Handheld.Game.Random
import Handheld.Game.Statement

namespace Handheld

-- A state of a script: what it does every tick and when a button is pressed.
structure GameState where
  statements : List Statement
  handlers : Dict Button (List Statement)

structure Program where
  states : Dict String GameState
  shapes : Dict String Shape
  initial : String

structure Game (ρ : Type) where
  program : Program
  settings : Settings
  machine : Machine ρ

namespace Game

variable {ρ : Type}

def freshMachine (program : Program) (settings : Settings) (random : ρ) : Machine ρ :=
  ⟨.empty, .blank settings.width settings.height, program.initial, random⟩

def start (program : Program) (settings : Settings) (random : ρ) : Game ρ :=
  ⟨program, settings, freshMachine program settings random⟩

def seeded (program : Program) (settings : Settings) : Game RandomStream :=
  start program settings (.ofSeed settings.seed)

def withMachine (game : Game ρ) (machine : Machine ρ) : Game ρ :=
  ⟨game.program, game.settings, machine⟩

def stage (game : Game ρ) : Stage := ⟨game.program.shapes, game.settings⟩

-- Takes a game back to its beginning. Its random numbers go on.
def reset (game : Game ρ) : Game ρ :=
  let machine := game.machine
  game.withMachine ⟨.empty, machine.display.clear, game.program.initial, machine.random⟩

def state? (game : Game ρ) : Except RuntimeError GameState :=
  match game.program.states.get? game.machine.current with
  | some state => .ok state
  | none => .error (.unknownState game.machine.current)

variable [RandomSource ρ]

def runBlock (game : Game ρ) (block : List Statement) : Outcome × Game ρ :=
  let (outcome, machine) := Statement.runBlock game.stage game.machine block
  (outcome, game.withMachine machine)

def tick (game : Game ρ) : Outcome × Game ρ :=
  match game.state? with
  | .error error => (.failed error, game)
  | .ok state => game.runBlock state.statements

-- Runs what the current state does when a button is pressed, if it does anything.
def press (game : Game ρ) (button : Button) : Outcome × Game ρ :=
  match game.state? with
  | .error error => (.failed error, game)
  | .ok state =>
    match state.handlers.get? button with
    | none => (.finished, game)
    | some block => game.runBlock block

end Game

end Handheld
