import Handheld.Text.CharSet
import Handheld.Text.DigitChars
import Handheld.Text.WordChars
import Handheld.Text.BlankChars

namespace Handheld

inductive NamedClass where
  | digit
  | word
  | blank
  deriving DecidableEq, Repr

namespace NamedClass

def chars : NamedClass → Text.CharSet
  | digit => Text.digitChars
  | word => Text.wordChars
  | blank => Text.blankChars

end NamedClass

inductive CharClass where
  | empty
  | range (low high : Char)
  | named (name : NamedClass)
  | union (first second : CharClass)
  | inter (first second : CharClass)
  | compl (body : CharClass)
  deriving DecidableEq, Repr

namespace CharClass

def contains : CharClass → Char → Bool
  | empty, _ => false
  | range low high, c => low ≤ c && c ≤ high
  | named name, c => name.chars.contains c
  | union first second, c => first.contains c || second.contains c
  | inter first second, c => first.contains c && second.contains c
  | compl body, c => !body.contains c

def all : CharClass := compl empty

def char (c : Char) : CharClass := range c c

def ofItems : List CharClass → CharClass
  | [] => empty
  | [item] => item
  | item :: items => union item (ofItems items)

def ofChars (chars : List Char) : CharClass := ofItems (chars.map char)

def diff (first second : CharClass) : CharClass := inter first (compl second)

def symmDiff (first second : CharClass) : CharClass :=
  union (diff first second) (diff second first)

def notLineBreak : CharClass := compl (char '\n')

-- The code points at which a class can begin or stop to hold characters.
def bounds : CharClass → List Nat
  | empty => []
  | range low high => [low.toNat, high.toNat + 1]
  | named name => name.chars.ranges.flatMap fun (low, high) => [low, high + 1]
  | union first second => first.bounds ++ second.bounds
  | inter first second => first.bounds ++ second.bounds
  | compl body => body.bounds

-- The surrogates are no characters, so what begins there begins after them.
def charFrom (code : Nat) : Char :=
  if 0xd800 ≤ code ∧ code < 0xe000 then '\ue000' else .ofNat code

-- Whether two classes hold the same characters. Between their bounds neither of them changes.
def same (first second : CharClass) : Bool :=
  first == second || (0 :: first.bounds ++ second.bounds).all fun code =>
    first.contains (charFrom code) == second.contains (charFrom code)

end CharClass

end Handheld
