import Handheld.Console.Key
import Handheld.Game.Button

namespace Handheld.Console

inductive Action where
  | press (button : Button)
  | power
  | reset
  | quit
  deriving DecidableEq, Repr

namespace Action

def all : List Action :=
  [press .x, press .y, press .a, press .b, press .start, power, reset, quit]

def name : Action → String
  | press .x => "x"
  | press .y => "y"
  | press .a => "a"
  | press .b => "b"
  | press .start => "start"
  | power => "power"
  | reset => "reset"
  | quit => "quit"

def position (action : Action) : Nat := all.idxOf action

end Action

-- The names of the keys for the actions.
abbrev KeyNames := Action → String

inductive BindingError where
  | unknownKey (action : Action) (name : String)
  | duplicate (first second : Action)
  deriving DecidableEq, Repr

def BindingError.message : BindingError → String
  | unknownKey action name => s!"Unknown key '{name}' bound to {action.name}"
  | duplicate first second => s!"{first.name} and {second.name} are bound to the same key"

structure Bindings where
  keys : List (Key × Action)
  deriving DecidableEq, Repr

namespace Bindings

def bind (names : KeyNames) (bindings : Bindings) (action : Action) :
    Except BindingError Bindings :=
  match Key.read? (names action) with
  | none => .error (.unknownKey action (names action))
  | some key => match bindings.keys.lookup key with
    | some first => .error (.duplicate first action)
    | none => .ok ⟨bindings.keys ++ [(key, action)]⟩

-- Binds each action to its key. No two actions share one.
def ofNames (names : KeyNames) : Except BindingError Bindings :=
  Action.all.foldlM (bind names) ⟨[]⟩

-- Ctrl and c always quit; no other modifier counts.
def action? (bindings : Bindings) (event : KeyEvent) : Option Action :=
  if event.key = .char 'c' ∧ event.ctrl then some .quit
  else bindings.keys.lookup event.key.folded

-- The actions in their order, however the keys are kept.
def legend (bindings : Bindings) : String :=
  let entries := bindings.keys.mergeSort fun first second => first.2.position ≤ second.2.position
  " ".intercalate (entries.map fun (key, action) => action.name ++ ":" ++ key.name)

end Bindings

end Handheld.Console
