import Handheld.Automaton.Tables
import Handheld.ParseTree

namespace Handheld

open Text

inductive ParseError where
  | lexical (error : LexicalError)
  | unexpected (found : String) (position : Position)
  | unexpectedEnd (position : Position)
  -- the tables reduce for ever without reading a token
  | endless
  deriving DecidableEq, Repr

namespace ParseError

def message : ParseError → String
  | lexical error => error.message
  | unexpected found position => s!"Syntax error at {position.text} (unexpected {found})"
  | unexpectedEnd position => s!"Syntax error at {position.text} (input ended early)"
  | endless => "The grammar never ends its reductions"

def position? : ParseError → Option Position
  | lexical error => some error.position
  | unexpected _ position => some position
  | unexpectedEnd position => some position
  | endless => none

end ParseError

namespace Tables

-- A parser at work: the trees read so far with the states entered after them, the latest first, the place
-- of the latest token, and the tokens to come.
structure Parsing where
  stack : List (Nat × ParseTree)
  position : Position
  input : List (Except LexicalError (Token String))

-- The state before anything has been read is state 0.
def topState : List (Nat × ParseTree) → Nat
  | [] => 0
  | (state, _) :: _ => state

inductive Step where
  | next (parsing : Parsing)
  | done (result : Except ParseError ParseTree)

def unexpected (token : Token String) : Step := .done (.error (.unexpected token.kind token.position))

-- Replaces the trees of a right-hand side by a tree of its rule. In tables built from a grammar the
-- production, its trees and the state to go on with are always there.
def reduce (tables : Tables) (parsing : Parsing) (token : Token String) (rule : Nat) : Step :=
  match tables.production? rule with
  | none => unexpected token
  | some production =>
    let count := production.rhs.length
    if parsing.stack.length < count then unexpected token
    else
      let below := parsing.stack.drop count
      match tables.goto? (topState below) production.lhs with
      | none => unexpected token
      | some next =>
        let children := ((parsing.stack.take count).map (·.2)).reverse
        .next ⟨(next, .branch production.lhs children) :: below, token.position, parsing.input⟩

def step (tables : Tables) (parsing : Parsing) : Step :=
  match parsing.input with
  | [] => .done (.error (.unexpectedEnd parsing.position))
  | .error error :: _ => .done (.error (.lexical error))
  | .ok token :: rest =>
    match tables.action? (topState parsing.stack) token.kind with
    | some (.shift next) => .next ⟨(next, .leaf token) :: parsing.stack, token.position, rest⟩
    | some (.reduce rule) => tables.reduce parsing token rule
    | some .accept => .done (.ok (.branch tables.start (parsing.stack.map (·.2)).reverse))
    | none => unexpected token

-- Steps until the parser ends; nothing if it has not ended after `fuel` steps.
def run (tables : Tables) : (fuel : Nat) → Parsing → Option (Except ParseError ParseTree)
  | 0, _ => none
  | fuel + 1, parsing =>
    match tables.step parsing with
    | .done result => some result
    | .next parsing => tables.run fuel parsing

-- Between two tokens, as long as the stack stays above some height, the state at that height never
-- comes a second time, and no two heights are left for good in one state: the reductions would repeat
-- for ever. So the ones that end climb at most as many levels as there are states, and come by each
-- level at most as often.
def stepBound (tables : Tables) (tokens : Nat) : Nat :=
  let states := tables.states.length + 2
  (tokens + 2) * (tokens + 2) * Nat.pow states (states + 1)

-- Parses a token stream. Steps past the bound would go on for ever.
def parse (tables : Tables) (input : List (Except LexicalError (Token String))) :
    Except ParseError ParseTree :=
  (tables.run (tables.stepBound input.length) ⟨[], .start, input⟩).getD (.error .endless)

end Tables

end Handheld
