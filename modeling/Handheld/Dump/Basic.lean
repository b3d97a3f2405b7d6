import Handheld.Dump.Json
import Handheld.ShiftReduce

namespace Handheld.Dump

open Text

def position (p : Position) : Json := .object [("line", .number p.line), ("column", .number p.column)]

def token (t : Token String) : Json :=
  .object [("kind", .text t.kind), ("lexeme", .text t.lexeme), ("position", position t.position)]

def tokens (ts : List (Token String)) : Json := .list (ts.map token)

def symbol : Symbol → Json
  | .terminal name => .object [("Terminal", .text name)]
  | .nonterminal name => .object [("NonTerminal", .text name)]

mutual

-- A node shows only what it has: an inner node its children, a leaf its text and place.
def tree : ParseTree → Json
  | .node s lexeme place children =>
    .object ([("symbol", symbol s)]
      ++ (if children.isEmpty then [] else [("children", .list (trees children))])
      ++ (lexeme.map fun text => ("lexeme", Json.text text)).toList
      ++ (place.map fun p => ("position", position p)).toList)

def trees : List ParseTree → List Json
  | [] => []
  | t :: rest => tree t :: trees rest

end

def production (p : Production) : Json :=
  .object [("lhs", .text p.lhs), ("rhs", .list (p.rhs.map symbol))]

def byState (encode : α → Json) (rows : List (Nat × α)) : Json :=
  .object (rows.map fun (state, row) => (toString state, encode row))

def byName (row : List (String × Nat)) : Json :=
  .object (row.map fun (name, state) => (name, .number state))

def actions (table : ActionTable) : Json :=
  .object [("shifts", byState byName table.shifts), ("reduces", byState .number table.reduces),
    ("accepts", byState (fun row => .list (row.map .text)) table.accepts)]

def gotos (table : GotoTable) : Json := byState byName table.entries

def tables (t : Tables) : Json :=
  .object [("start", .text t.start), ("productions", .list (t.productions.map production)),
    ("actions", actions t.actions), ("gotos", gotos t.gotos)]

end Handheld.Dump
