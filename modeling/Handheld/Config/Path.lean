import Handheld.Lexer
import Handheld.Text.Decimal

namespace Handheld.Config

-- A step to a value: into a table by a key, or into a list
-- by an index. An index below zero counts from the end.
inductive Step where
  | key (name : String)
  | index (n : Int)
  deriving DecidableEq, Repr

abbrev Path := List Step

namespace Path

inductive Kind where
  | name
  | dot
  | index
  deriving DecidableEq, Repr

def blanks : Pattern := .star (.one (.ofChars [' ', '\t']))

def digits : Pattern := .many (.oneOf [.range '0' '9'])

def nameChars : List CharClass :=
  [.range 'a' 'z', .range 'A' 'Z', .range '0' '9', .char ' ', .char '_', .char '-']

def lexer : Lexer Kind where
  rules := [
    (.name, .many (.oneOf nameChars)),
    (.dot, .text "."),
    (.index, .ofParts [.text "[", blanks, .optional (.text "-"), digits, blanks, .text "]"])]
  ignored := []
  endMarker := none

def index? (lexeme : String) : Option Int :=
  (Text.signed? (lexeme.toList.filter fun c => c.isDigit || c = '-')).filter fun n =>
    Int64.minValue.toInt ≤ n ∧ n ≤ Int64.maxValue.toInt

-- The steps after the outermost key.
def steps? : List (Token Kind) → Option Path
  | [] => some []
  | token :: rest =>
    match token.kind, rest with
    | .dot, next :: rest =>
      if next.kind = .name then (steps? rest).map (.key next.lexeme :: ·) else none
    | .index, rest => do return .index (← index? token.lexeme) :: (← steps? rest)
    | _, _ => none

-- Reads a path such as `display.width` or `display[0]`.
def read? (text : String) : Option Path :=
  match lexer.tokens text with
  | .ok (first :: rest) =>
    if first.kind = .name then (steps? rest).map (.key first.lexeme :: ·) else none
  | _ => none

end Path

end Handheld.Config
