import Handheld.Text.Position

namespace Handheld

open Text

-- A piece of source text with the kind of the rule that read it and the place where it starts.
structure Token (κ : Type) where
  kind : κ
  lexeme : String
  position : Position
  deriving DecidableEq, Repr

-- Where no rule can read on: the first characters there, three at most, and their place.
structure LexicalError where
  snippet : String
  position : Position
  deriving DecidableEq, Repr

def LexicalError.message (error : LexicalError) : String :=
  s!"Unexpected token {error.snippet}... at {error.position.text}"

end Handheld
