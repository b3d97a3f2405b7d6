import Handheld.Data.Dict
import Handheld.Grammar.Symbol
import Handheld.Text.Column

namespace Handheld

open Text

-- A context-free grammar: the alternatives of each nonterminal, in the order they were given.
structure Grammar where
  rules : Dict String (List (List Symbol))
  deriving DecidableEq

namespace Grammar

def empty : Grammar := ⟨.empty⟩

-- The alternatives of a known name are replaced.
def add (grammar : Grammar) (lhs : String) (alternatives : List (List Symbol)) : Grammar :=
  ⟨grammar.rules.insert lhs alternatives⟩

def ofRules (rules : List (String × List (List Symbol))) : Grammar :=
  rules.foldl (fun grammar (lhs, alternatives) => grammar.add lhs alternatives) empty

def alternatives? (grammar : Grammar) (lhs : String) : Option (List (List Symbol)) :=
  grammar.rules.get? lhs

-- The width of the left column is measured in bytes, the padding fills up characters.
def columnWidth (grammar : Grammar) : Nat :=
  (grammar.rules.keys.map String.utf8ByteSize).foldl max 0

def ruleText (width : Nat) (lhs : String) (alternatives : List (List Symbol)) : String :=
  let bar := "\n" ++ padRight width "" ++ "  |"
  padRight width lhs ++ " :=" ++ bar.intercalate (alternatives.map fun rhs => " " ++ sequenceText rhs)

-- The grammar as text, one alternative a line.
def listing (grammar : Grammar) : String :=
  "\n".intercalate
    (grammar.rules.entries.map fun (lhs, alternatives) => ruleText grammar.columnWidth lhs alternatives)

end Grammar

structure Production where
  lhs : String
  rhs : List Symbol
  deriving DecidableEq, Repr

namespace Production

def text (production : Production) : String := s!"{production.lhs} := {sequenceText production.rhs}"

end Production

end Handheld
