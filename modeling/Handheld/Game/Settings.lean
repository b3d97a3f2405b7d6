import Handheld.Expr.Value

namespace Handheld

structure Settings where
  width : Nat
  height : Nat
  fps : Nat
  seed : UInt64
  deriving DecidableEq, Repr

inductive InvalidSettings where
  | zero (field : String)
  | tooLarge (field : String) (value : Nat)
  deriving DecidableEq, Repr

namespace Settings

def default : Settings := ⟨30, 30, 30, 0⟩

def maxSide : Nat := 4096

-- The first fault of some settings: zeros come before sides that are too large.
def fault? (settings : Settings) : Option InvalidSettings :=
  if settings.width = 0 then some (.zero "width")
  else if settings.height = 0 then some (.zero "height")
  else if settings.fps = 0 then some (.zero "fps")
  else if maxSide < settings.width then some (.tooLarge "width" settings.width)
  else if maxSide < settings.height then some (.tooLarge "height" settings.height)
  else none

def constant? (settings : Settings) (name : String) : Option Value :=
  if name = "!W" then some (.ofSize settings.width)
  else if name = "!H" then some (.ofSize settings.height)
  else if name = "!FPS" then some (.ofSize settings.fps)
  else none

end Settings

namespace InvalidSettings

def field : InvalidSettings → String
  | zero field => field
  | tooLarge field _ => field

def message : InvalidSettings → String
  | zero field => s!"Width, height and FPS must be positive integers ({field} is 0)"
  | tooLarge field value => s!"Display {field} {value} is larger than {Settings.maxSide} pixels"

end InvalidSettings

end Handheld
