namespace Handheld

inductive Button where
  | x
  | y
  | a
  | b
  | start
  deriving DecidableEq, Repr

namespace Button

def all : List Button := [x, y, a, b, start]

def name : Button → String
  | x => "X"
  | y => "Y"
  | a => "A"
  | b => "B"
  | start => "START"

def label (button : Button) : String := "@" ++ button.name

def ofLabel? (label : String) : Option Button := all.find? (·.label = label)

-- Reads the name of a button: any case, and any number of label signs before it.
def read (text : String) : Except String Button :=
  let name := (text.toList.dropWhile (· = '@')).map Char.toUpper
  match ofLabel? (String.ofList ('@' :: name)) with
  | some button => .ok button
  | none => .error s!"unknown button '{text}'"

theorem ofLabel?_label (button : Button) : ofLabel? button.label = some button := by
  cases button <;> rfl

end Button

end Handheld
