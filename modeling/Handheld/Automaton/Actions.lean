import Std.Data.ExtTreeMap

namespace Handheld

inductive Action where
  | shift (next : Nat)
  | reduce (rule : Nat)
  | accept
  deriving DecidableEq, Repr

namespace Action

def text : Action → String
  | shift next => s!"s{next}"
  | reduce rule => s!"r{rule}"
  | accept => "acc"

end Action

inductive Conflict where
  | shiftShift (state : Nat) (terminal : String)
  | shiftReduce (state : Nat) (terminal : String)
  | shiftAccept (state : Nat) (terminal : String)
  | reduceReduce (state : Nat)
  | reduceAccept (state : Nat) (terminal : String)
  deriving DecidableEq, Repr

namespace Conflict

def message : Conflict → String
  | shiftShift state terminal => s!"shift-shift conflict at state {state} and terminal '{terminal}'"
  | shiftReduce state terminal =>
    s!"shift-reduce conflict at state {state} and terminal '{terminal}'"
  | shiftAccept state terminal =>
    s!"shift-accept conflict at state {state} and terminal '{terminal}'"
  | reduceReduce state => s!"reduce-reduce conflict at state {state} and all terminals"
  | reduceAccept state terminal =>
    s!"reduce-accept conflict at state {state} and terminal '{terminal}'"

end Conflict

inductive Cell where
  | shift (next : Nat)
  | accept
  deriving DecidableEq, Repr

-- The actions of one state. A reduce fills the row for every terminal, so it shares its row with nothing.
inductive Row where
  | reduce (rule : Nat)
  | cells (cells : Std.ExtTreeMap String Cell)
  deriving DecidableEq

structure ActionTable where
  rows : Std.ExtTreeMap Nat Row
  deriving DecidableEq

namespace ActionTable

def empty : ActionTable := ⟨∅⟩

def cells? (table : ActionTable) (state : Nat) : Option (Std.ExtTreeMap String Cell) :=
  match table.rows[state]? with
  | some (.cells cells) => some cells
  | _ => none

def cell? (table : ActionTable) (state : Nat) (terminal : String) : Option Cell :=
  (table.cells? state).bind (·[terminal]?)

def reduce? (table : ActionTable) (state : Nat) : Option Nat :=
  match table.rows[state]? with
  | some (.reduce rule) => some rule
  | _ => none

def setCell (table : ActionTable) (state : Nat) (terminal : String) (cell : Cell) : ActionTable :=
  ⟨table.rows.insert state (.cells (((table.cells? state).getD ∅).insert terminal cell))⟩

def setReduce (table : ActionTable) (state rule : Nat) : ActionTable :=
  ⟨table.rows.insert state (.reduce rule)⟩

-- The least terminals of a row, by code point, with a shift and with an accept.
def firstShift? (table : ActionTable) (state : Nat) : Option String :=
  ((table.cells? state).getD ∅).toList.findSome? fun
    | (terminal, .shift _) => some terminal
    | _ => none

def firstAccept? (table : ActionTable) (state : Nat) : Option String :=
  ((table.cells? state).getD ∅).toList.findSome? fun
    | (terminal, .accept) => some terminal
    | _ => none

-- Registering the same shift again is no conflict.
def addShift (table : ActionTable) (state : Nat) (terminal : String) (next : Nat) :
    Except Conflict ActionTable :=
  match table.cell? state terminal, table.reduce? state with
  | some (.shift other), _ => if other = next then .ok table else .error (.shiftShift state terminal)
  | _, some _ => .error (.shiftReduce state terminal)
  | some .accept, none => .error (.shiftAccept state terminal)
  | none, none => .ok (table.setCell state terminal (.shift next))

-- A conflict names the least terminal in the way of the reduce, a shift before an accept.
def addReduce (table : ActionTable) (state rule : Nat) : Except Conflict ActionTable :=
  match table.reduce? state with
  | some other => if other = rule then .ok table else .error (.reduceReduce state)
  | none =>
    match table.firstShift? state, table.firstAccept? state with
    | some terminal, _ => .error (.shiftReduce state terminal)
    | none, some terminal => .error (.reduceAccept state terminal)
    | none, none => .ok (table.setReduce state rule)

def addAccept (table : ActionTable) (state : Nat) (terminal : String) :
    Except Conflict ActionTable :=
  match table.cell? state terminal, table.reduce? state with
  | some (.shift _), _ => .error (.shiftAccept state terminal)
  | _, some _ => .error (.reduceAccept state terminal)
  | _, none => .ok (table.setCell state terminal .accept)

def action? (table : ActionTable) (state : Nat) (terminal : String) : Option Action :=
  match table.rows[state]? with
  | none => none
  | some (.reduce rule) => some (.reduce rule)
  | some (.cells cells) => match cells[terminal]? with
    | none => none
    | some (.shift next) => some (.shift next)
    | some .accept => some .accept

-- Views of the table, states and terminals in ascending order; states without entries are left out.

def shifts (table : ActionTable) : List (Nat × List (String × Nat)) :=
  table.rows.toList.filterMap fun (state, row) =>
    match row with
    | .reduce _ => none
    | .cells cells =>
      let entries := cells.toList.filterMap fun
        | (terminal, .shift next) => some (terminal, next)
        | _ => none
      if entries.isEmpty then none else some (state, entries)

def reduces (table : ActionTable) : List (Nat × Nat) :=
  table.rows.toList.filterMap fun
    | (state, .reduce rule) => some (state, rule)
    | _ => none

def accepts (table : ActionTable) : List (Nat × List String) :=
  table.rows.toList.filterMap fun (state, row) =>
    match row with
    | .reduce _ => none
    | .cells cells =>
      let entries := cells.toList.filterMap fun
        | (terminal, .accept) => some terminal
        | _ => none
      if entries.isEmpty then none else some (state, entries)

end ActionTable

structure GotoTable where
  rows : Std.ExtTreeMap Nat (Std.ExtTreeMap String Nat)
  deriving DecidableEq

namespace GotoTable

def empty : GotoTable := ⟨∅⟩

def add (table : GotoTable) (state : Nat) (nonterminal : String) (next : Nat) : GotoTable :=
  ⟨table.rows.insert state ((table.rows[state]?.getD ∅).insert nonterminal next)⟩

def goto? (table : GotoTable) (state : Nat) (nonterminal : String) : Option Nat :=
  table.rows[state]?.bind (·[nonterminal]?)

def entries (table : GotoTable) : List (Nat × List (String × Nat)) :=
  table.rows.toList.map fun (state, row) => (state, row.toList)

end GotoTable

end Handheld
