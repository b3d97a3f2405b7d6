import Handheld.Data.BreadthFirst
import Handheld.Grammar.Basic

namespace Handheld.Grammar

inductive NumberingError where
  | unknownRule (lhs : String)
  | noProductions (start : String)
  deriving DecidableEq, Repr

def NumberingError.message : NumberingError → String
  | unknownRule lhs => s!"Grammar rule for LHS '{lhs}' does not exist"
  | noProductions start => s!"Start symbol '{start}' has no productions"

-- The nonterminals on the right of a name, in the order they stand there.
def mentions (grammar : Grammar) (lhs : String) : List String :=
  ((grammar.alternatives? lhs).getD []).flatten.filterMap Symbol.nonterminal?

def allMentions (grammar : Grammar) : List String :=
  (grammar.rules.values.flatten.flatten).filterMap Symbol.nonterminal?

-- The nonterminals reachable from a start symbol, breadth first, defined or not. Each of them is the start
-- or mentioned in some rule, which bounds the search.
def reachable (grammar : Grammar) (start : String) : List String :=
  explore grammar.mentions (grammar.allMentions.length + 1) [start] []

def productionsOf? (grammar : Grammar) (lhs : String) : Except NumberingError (List Production) :=
  match grammar.alternatives? lhs with
  | none => .error (.unknownRule lhs)
  | some alternatives => .ok (alternatives.map (⟨lhs, ·⟩))

-- The productions reachable from a start symbol. Their places in the list are their rule numbers, so rule 0
-- is the first alternative of the start.
def productions? (grammar : Grammar) (start : String) : Except NumberingError (List Production) := do
  match (← (grammar.reachable start).mapM grammar.productionsOf?).flatten with
  | [] => .error (.noProductions start)
  | productions => .ok productions

end Handheld.Grammar
