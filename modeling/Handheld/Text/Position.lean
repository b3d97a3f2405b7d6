namespace Handheld.Text

-- A place in a text: the line and the column of its next character, both counted from one.
structure Position where
  line : Nat
  column : Nat
  deriving DecidableEq, Repr

namespace Position

def start : Position := ⟨1, 1⟩

def step (position : Position) (c : Char) : Position :=
  if c = '\n' then ⟨position.line + 1, 1⟩ else ⟨position.line, position.column + 1⟩

-- The place after reading some characters. A column counts characters, not bytes.
def advance (position : Position) (read : List Char) : Position := read.foldl step position

theorem advance_append (position : Position) (first second : List Char) :
    position.advance (first ++ second) = (position.advance first).advance second :=
  List.foldl_append

def text (position : Position) : String := s!"{position.line}:{position.column}"

end Position

end Handheld.Text
