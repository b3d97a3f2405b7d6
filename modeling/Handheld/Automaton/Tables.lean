import Handheld.Automaton.Actions
import Handheld.Automaton.Item
import Handheld.Grammar.Numbering

namespace Handheld

namespace Automaton

variable (productions : List Production)

-- The nonterminals that can stand first where `lhs` is expected.
def leading (lhs : String) : List String :=
  (productions.filter (·.lhs = lhs)).filterMap fun production =>
    production.rhs.head?.bind Symbol.nonterminal?

-- Each leading nonterminal is in the queue or leads some production, which bounds the search.
def allLeading (queue : List String) : List String :=
  explore (leading productions) (queue.length + productions.length) queue []

-- The closure of some items: with an item before a
-- nonterminal, also every production of it from its beginning.
def closure (kernel : List Item) : ItemSet :=
  let names := allLeading productions (kernel.filterMap fun item => item.next?.bind Symbol.nonterminal?)
  let initials := (productions.filter (·.lhs ∈ names)).map Item.initial
  .ofList (kernel ++ initials)

-- The symbols after a cursor, in the order of the items.
def nextSymbols (items : ItemSet) : List Symbol := (items.toList.filterMap Item.next?).eraseDups

-- The items after reading a symbol.
def target (items : ItemSet) (symbol : Symbol) : ItemSet :=
  closure productions ((items.toList.filter (·.next? = some symbol)).map Item.advanced)

-- Nothing is read after the end marker, so it leads to no state.
def targets (items : ItemSet) : List ItemSet :=
  ((nextSymbols items).filter (!·.isEndMarker)).map (target productions items)

def itemCount : Nat := (productions.map (·.rhs.length + 1)).foldr (· + ·) 0

-- The states, in the order of their discovery from the root. There are no more of them than sets of items.
def states (root : ItemSet) : List ItemSet :=
  explore (targets productions) (1 <<< itemCount productions) [root] []

end Automaton

inductive TableEntry where
  | shift (state : Nat) (terminal : String) (next : Nat)
  | reduce (state rule : Nat)
  | accept (state : Nat) (terminal : String)
  | goto (state : Nat) (nonterminal : String) (next : Nat)
  deriving DecidableEq, Repr

namespace Automaton

variable (productions : List Production)

-- Equal productions share one number, the last.
def ruleNumber? (production : Production) : Option Nat :=
  (productions.reverse.idxOf? production).map (productions.length - 1 - ·)

def transitionEntries (states : List ItemSet) : List TableEntry :=
  states.zipIdx.flatMap fun (items, state) =>
    (nextSymbols items).map fun symbol =>
      let next := states.idxOf (target productions items symbol)
      match symbol with
      | .terminal name => if name = endMarker then .accept state name else .shift state name next
      | .nonterminal name => .goto state name next

def reduceEntries (states : List ItemSet) : List TableEntry :=
  states.zipIdx.flatMap fun (items, state) =>
    (items.toList.filter Item.isFinished).filterMap fun item =>
      (ruleNumber? productions item.production).map (.reduce state)

end Automaton

-- The tables that drive a shift-reduce parser. A state is
-- a place in `states`, a rule a place in `productions`.
structure Tables where
  start : String
  productions : List Production
  states : List ItemSet
  actions : ActionTable
  gotos : GotoTable

inductive TablesError where
  | numbering (error : Grammar.NumberingError)
  | conflict (conflict : Conflict)
  deriving DecidableEq, Repr

def TablesError.message : TablesError → String
  | .numbering error => error.message
  | .conflict c => s!"Ill-formed grammar: {c.message}"

namespace Tables

def register (tables : ActionTable × GotoTable) (entry : TableEntry) :
    Except Conflict (ActionTable × GotoTable) :=
  match entry with
  | .shift state terminal next => (tables.1.addShift state terminal next).map (·, tables.2)
  | .reduce state rule => (tables.1.addReduce state rule).map (·, tables.2)
  | .accept state terminal => (tables.1.addAccept state terminal).map (·, tables.2)
  | .goto state nonterminal next => .ok (tables.1, tables.2.add state nonterminal next)

-- A finished item reduces whatever comes next, so all
-- conflicts show in the table, and the first one is the error.
def build (grammar : Grammar) (start : String) : Except TablesError Tables := do
  let productions ← (grammar.productions? start).mapError .numbering
  let root := Automaton.closure productions (productions.head?.map Item.initial).toList
  let states := Automaton.states productions root
  let entries :=
    Automaton.transitionEntries productions states ++ Automaton.reduceEntries productions states
  let (actions, gotos) ← (entries.foldlM register (.empty, .empty)).mapError .conflict
  return { start, productions, states, actions, gotos }

def production? (tables : Tables) (rule : Nat) : Option Production := tables.productions[rule]?

def action? (tables : Tables) (state : Nat) (terminal : String) : Option Action :=
  tables.actions.action? state terminal

def goto? (tables : Tables) (state : Nat) (nonterminal : String) : Option Nat :=
  tables.gotos.goto? state nonterminal

end Tables

end Handheld
