import Handheld.Console.Bindings
import Handheld.Game.Basic

namespace Handheld

-- A console with a game in it. An error halts the game: its last frame stays, and it takes a reset or the
-- power switch to go on. The frames since the last start are counted in a machine word.
structure Console (ρ : Type) where
  game : Game ρ
  bindings : Console.Bindings
  error : Option RuntimeError
  clock : UInt64
  powered : Bool
  quitting : Bool

namespace Console

variable {ρ : Type}

-- A console just switched on.
def start (game : Game ρ) (bindings : Bindings) : Console ρ := ⟨game, bindings, none, 0, true, false⟩

def ticks (console : Console ρ) : Nat := console.clock.toNat

def restart (console : Console ρ) : Console ρ :=
  { console with game := console.game.reset, error := none, clock := 0 }

-- Switching off takes the game back to its beginning.
def switchPower (console : Console ρ) : Console ρ :=
  if console.powered then { console.restart with powered := false }
  else { console with powered := true }

def quit (console : Console ρ) : Console ρ := { console with quitting := true }

variable [RandomSource ρ]

def isRunning (console : Console ρ) : Bool := console.powered && console.error.isNone

def tick (console : Console ρ) : Console ρ :=
  if console.isRunning then
    match console.game.tick with
    | (.failed error, game) => { console with game := game, error := some error }
    | (_, game) => { console with game := game, clock := console.clock + 1 }
  else console

def press (console : Console ρ) (button : Button) : Console ρ :=
  match console.game.press button with
  | (.failed error, game) => { console with game := game, error := some error }
  | (_, game) => { console with game := game }

-- Answers a key event, and says whether it had an effect.
def handleKey (console : Console ρ) (event : KeyEvent) : Bool × Console ρ :=
  match console.bindings.action? event with
  | some .quit => (true, console.quit)
  | some .power => (true, console.switchPower)
  | some .reset => if console.powered then (true, console.restart) else (false, console)
  | some (.press button) =>
    if console.isRunning then (true, console.press button) else (false, console)
  | none => (false, console)

end Console

end Handheld
