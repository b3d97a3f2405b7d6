namespace Handheld.Console

inductive Key where
  | char (c : Char)
  | enter
  | esc
  | tab
  | backspace
  | up
  | down
  | left
  | right
  | unnamed (code : Nat)
  deriving DecidableEq, Repr

-- A key with the modifiers held down while it was pressed.
structure KeyEvent where
  key : Key
  ctrl : Bool
  shift : Bool
  alt : Bool
  deriving DecidableEq, Repr

namespace Key

-- Keys without a name that a terminal tells apart.

@[match_pattern] def delete : Key := unnamed 0

@[match_pattern] def function (number : Nat) : Key := unnamed (number + 1)

-- The keys with a name of more than one character.
def named : List (String × Key) :=
  [("space", char ' '), ("enter", enter), ("esc", esc), ("tab", tab), ("backspace", backspace),
    ("up", up), ("down", down), ("left", left), ("right", right)]

-- Reads a single character or the name of a named key. Case does not matter, for the letters of ASCII.
def read? (name : String) : Option Key :=
  match name.toList with
  | [c] => some (char c.toLower)
  | chars => named.lookup (String.ofList (chars.map Char.toLower))

def folded : Key → Key
  | char c => char c.toLower
  | key => key

-- What the legend shows a key by. No key without a name is ever in it.
def name : Key → String
  | char ' ' => "space"
  | char c => String.ofList [c]
  | enter => "enter"
  | esc => "esc"
  | tab => "tab"
  | backspace => "backspace"
  | up => "up"
  | down => "down"
  | left => "left"
  | right => "right"
  | unnamed code => s!"key {code}"

end Key

end Handheld.Console
