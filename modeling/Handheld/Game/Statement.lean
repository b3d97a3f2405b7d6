import Handheld.Data.Dict
import Handheld.Expression
import Handheld.Game.Display
import Handheld.Game.Settings

namespace Handheld

inductive Statement where
  | assign (name : String) (value : Expression)
  | clear
  | display (shape : String) (x y : Expression)
  | goto (state : String)
  | ifTrue (condition : Expression) (body : List Statement)
  | ifFalse (condition : Expression) (body : List Statement)

inductive RuntimeError where
  | unknownState (name : String)
  | unknownShape (name : String)
  | expression (error : ExprError)
  deriving DecidableEq, Repr

def RuntimeError.message : RuntimeError → String
  | unknownState name => s!"State {name} is not defined"
  | unknownShape name => s!"Shape {name} is not defined"
  | expression error => error.message

structure Machine (ρ : Type) where
  memory : Dict String Value
  display : Display
  current : String
  random : ρ

namespace Machine

variable {ρ : Type}

-- The value of a variable, 0 before its first assignment.
def get (machine : Machine ρ) (name : String) : Value := (machine.memory.get? name).getD 0

def assign (machine : Machine ρ) (name : String) (value : Value) : Machine ρ :=
  ⟨machine.memory.insert name value, machine.display, machine.current, machine.random⟩

def draw (machine : Machine ρ) (display : Display) : Machine ρ :=
  ⟨machine.memory, display, machine.current, machine.random⟩

-- Moves to another state, which is looked up only when it runs.
def moveTo (machine : Machine ρ) (state : String) : Machine ρ :=
  ⟨machine.memory, machine.display, state, machine.random⟩

def setRandom (machine : Machine ρ) (random : ρ) : Machine ρ :=
  ⟨machine.memory, machine.display, machine.current, random⟩

def scope (machine : Machine ρ) (settings : Settings) : Scope := ⟨machine.get, settings.constant?⟩

-- Of the machine, only its random numbers can change.
def eval [RandomSource ρ] (machine : Machine ρ) (settings : Settings) (expression : Expression) :
    Except ExprError Value × Machine ρ :=
  let (result, random) := (expression.eval (machine.scope settings)).run machine.random
  (result, machine.setRandom random)

end Machine

inductive Outcome where
  -- the next statement is due
  | finished
  -- the machine has moved to another state, and the rest of the block is not run
  | moved
  | failed (error : RuntimeError)
  deriving DecidableEq, Repr

-- What a game never changes while it runs.
structure Stage where
  shapes : Dict String Shape
  settings : Settings

namespace Statement

variable {ρ : Type} [RandomSource ρ]

mutual

def run (stage : Stage) (machine : Machine ρ) : Statement → Outcome × Machine ρ
  | assign name value =>
    match machine.eval stage.settings value with
    | (.error error, machine) => (.failed (.expression error), machine)
    | (.ok value, machine) => (.finished, machine.assign name value)
  | clear => (.finished, machine.draw machine.display.clear)
  | display shape x y =>
    match machine.eval stage.settings x with
    | (.error error, machine) => (.failed (.expression error), machine)
    | (.ok x, machine) =>
      match machine.eval stage.settings y with
      | (.error error, machine) => (.failed (.expression error), machine)
      | (.ok y, machine) =>
        match stage.shapes.get? shape with
        | none => (.failed (.unknownShape shape), machine)
        | some picture => (.finished, machine.draw (machine.display.overlay picture x y))
  | goto state => (.moved, machine.moveTo state)
  | ifTrue condition body =>
    match machine.eval stage.settings condition with
    | (.error error, machine) => (.failed (.expression error), machine)
    | (.ok value, machine) =>
      if value ≠ 0 then runBlock stage machine body else (.finished, machine)
  | ifFalse condition body =>
    match machine.eval stage.settings condition with
    | (.error error, machine) => (.failed (.expression error), machine)
    | (.ok value, machine) =>
      if value = 0 then runBlock stage machine body else (.finished, machine)

-- Runs statements in turn until one does not finish.
def runBlock (stage : Stage) (machine : Machine ρ) : List Statement → Outcome × Machine ρ
  | [] => (.finished, machine)
  | statement :: rest =>
    match run stage machine statement with
    | (.finished, machine) => runBlock stage machine rest
    | ended => ended

end

end Statement

end Handheld
