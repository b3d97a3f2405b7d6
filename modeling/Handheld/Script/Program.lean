import Handheld.Game.Basic
import Handheld.ParseTree
import Handheld.Script.Grammar

namespace Handheld

open Text

namespace Script

inductive TreeError where
  | unexpectedNode (expected found : String) (position : Option Position)
  | invalidShape (name : String) (pixel : InvalidPixel) (position : Option Position)
  | expression (error : ExprError) (position : Option Position)
  deriving DecidableEq, Repr

namespace TreeError

def message : TreeError → String
  | unexpectedNode expected found _ => s!"Expected {expected} node, found {found}"
  | invalidShape name pixel _ => s!"Shape {name} has an {pixel.message}"
  | expression error _ => error.message

def position? : TreeError → Option Position
  | unexpectedNode _ _ position => position
  | invalidShape _ _ position => position
  | expression _ position => position

end TreeError

-- A definition that replaces an earlier one of the same name.
inductive Redefinition where
  | shape (name : String)
  | state (name : String)
  | handler (state : String) (button : Button)
  deriving DecidableEq, Repr

def Redefinition.message : Redefinition → String
  | shape name => s!"shape {name} is defined more than once, keeping the last one"
  | state name => s!"state {name} is defined more than once, keeping the last one"
  | handler owner button =>
    s!"state {owner} handles {button.name} more than once, keeping the last one"

abbrev OfTree := Except TreeError

def unexpected (expected : String) (tree : ParseTree) : TreeError :=
  .unexpectedNode expected tree.tag tree.firstPosition?

-- Only the name of a node is looked at, not whether it is a leaf.
def expect (tag : String) (tree : ParseTree) : OfTree Unit :=
  if tree.tag = tag then .ok () else .error (unexpected tag tree)

def textOf (tag : String) (tree : ParseTree) : OfTree String := do
  expect tag tree
  return tree.lexeme

-- The items of a list that grows to the left, first to last.
def listItems (list : String) : ParseTree → OfTree (List ParseTree)
  | .node symbol lexeme position children =>
    if symbol.name = list then
      match children with
      | [before, _, item] => do return (← listItems list before) ++ [item]
      | [item] => .ok [item]
      | children => .error (unexpected list (.node symbol lexeme position children))
    else .error (unexpected list (.node symbol lexeme position children))

def onlyChild (tag : String) (tree : ParseTree) : OfTree ParseTree := do
  expect tag tree
  match tree.children with
  | [child] => .ok child
  | _ => .error (unexpected tag tree)

def singleExpression (tree : ParseTree) : OfTree Expression := do
  expect "single-expression" tree
  (Expression.read tree.lexeme).mapError (.expression · tree.position?)

def expression (tree : ParseTree) : OfTree Expression := do
  expect "expression" tree
  match tree.children with
  | [single] => singleExpression single
  | [_, first, second] => return .random (← singleExpression first) (← singleExpression second)
  | _ => .error (unexpected "expression" tree)

mutual

def statement : ParseTree → OfTree Statement
  | .node symbol lexeme position children =>
    let unfit (expected : String) : OfTree Statement :=
      .error (unexpected expected (.node symbol lexeme position children))
    match symbol.name with
    | "variable-update-stmt" => match children with
      | [name, _, value] => do return .assign (← textOf "variable" name) (← expression value)
      | _ => unfit "variable-update-stmt"
    | "screen-update-stmt" => match children with
      | [word] => do
        expect "clear-screen" word
        return .clear
      | [_, shape, _, _, x, _, y, _] => do
        return .display (← textOf "shape-name" shape) (← expression x) (← expression y)
      | _ => unfit "screen-update-stmt"
    | "goto-stmt" => match children with
      | [_, state] => do return .goto (← textOf "state-name" state)
      | _ => unfit "goto-stmt"
    | "selection-stmt" => match children with
      | [selection] => statement selection
      | _ => unfit "selection-stmt"
    | "if-stmt" => match children with
      | [_, condition, _, _, body, _, _] => do
        let condition ← expression condition
        let _ ← listItems "inif-stmts" body
        return .ifTrue condition (← statements "inif-stmts" "inif-stmt" body)
      | _ => unfit "if-stmt"
    | "if-not-stmt" => match children with
      | [_, _, condition, _, _, body, _, _] => do
        let condition ← expression condition
        let _ ← listItems "inif-stmts" body
        return .ifFalse condition (← statements "inif-stmts" "inif-stmt" body)
      | _ => unfit "if-not-stmt"
    | _ => unfit "statement"

-- The statements of a list. A fault in the list itself comes before any in its statements, so its
-- items are looked through first.
def statements (list item : String) : ParseTree → OfTree (List Statement)
  | .node _ _ _ [before, _, last] => do
    return (← statements list item before) ++ [← wrappedStatement item last]
  | .node _ _ _ [only] => do return [← wrappedStatement item only]
  | tree => .error (unexpected list tree)

def wrappedStatement (item : String) : ParseTree → OfTree Statement
  | .node symbol lexeme position [child] =>
    if symbol.name = item then statement child
    else .error (unexpected item (.node symbol lexeme position [child]))
  | tree => .error (unexpected item tree)

end

def block (list item : String) (tree : ParseTree) : OfTree (List Statement) := do
  let _ ← listItems list tree
  statements list item tree

def handler (tree : ParseTree) : OfTree (Button × List Statement) :=
  match tree.children with
  | [label, _, _, body, _, _] => do
    let name ← textOf "handler-name" label
    match Button.ofLabel? name with
    | none => .error (unexpected "handler-name" label)
    | some button => return (button, ← block "inhandler-stmts" "inhandler-stmt" body)
  | _ => .error (unexpected "btn-handler" tree)

-- What has been read so far, with the redefinitions met on the way, the latest first.
structure Reading (α : Type) where
  value : α
  redefined : List Redefinition

def addMember (name : String) (reading : Reading GameState) (member : ParseTree) :
    OfTree (Reading GameState) := do
  let member ← onlyChild "instate-stmt" member
  let state := reading.value
  if member.tag = "btn-handler" then
    let (button, body) ← handler member
    let redefined := if state.handlers.contains button then [.handler name button] else []
    return ⟨⟨state.statements, state.handlers.insert button body⟩, redefined ++ reading.redefined⟩
  else
    return ⟨⟨state.statements ++ [← statement member], state.handlers⟩, reading.redefined⟩

def stateDefinition (redefined : List Redefinition) (tree : ParseTree) :
    OfTree (String × Reading GameState) :=
  match tree.children with
  | [name, _, _, members, _, _] => do
    let name ← textOf "state-name" name
    let members ← listItems "instate-stmts" members
    return (name, ← members.foldlM (addMember name) ⟨⟨[], .empty⟩, redefined⟩)
  | _ => .error (unexpected "state-def" tree)

def shapeDefinition (tree : ParseTree) : OfTree (String × Shape) :=
  match tree.children with
  | [name, _, _, body, _] => do
    let name ← textOf "shape-name" name
    expect "shape" body
    let shape ← (Shape.read body.lexeme).mapError (.invalidShape name · body.position?)
    return (name, shape)
  | _ => .error (unexpected "shape-def" tree)

structure Definitions where
  states : Dict String GameState
  shapes : Dict String Shape

def addDefinition (reading : Reading Definitions) (definition : ParseTree) :
    OfTree (Reading Definitions) := do
  let definition ← onlyChild "top-level-stmt" definition
  let known := reading.value
  match definition.tag with
  | "shape-def" => do
    let (name, shape) ← shapeDefinition definition
    let redefined := if known.shapes.contains name then [.shape name] else []
    return ⟨⟨known.states, known.shapes.insert name shape⟩, redefined ++ reading.redefined⟩
  | "state-def" => do
    let (name, state) ← stateDefinition reading.redefined definition
    let redefined := if known.states.contains name then [.state name] else []
    return ⟨⟨known.states.insert name state.value, known.shapes⟩, redefined ++ state.redefined⟩
  | _ => .error (unexpected "top-level-stmt" definition)

end Script

-- Reads the program off the parse tree of a script. Of two definitions of one name the later one counts;
-- the redefinitions are listed in their order.
def Program.ofTree (tree : ParseTree) : Except Script.TreeError (Program × List Script.Redefinition) := do
  Script.expect Script.start tree
  match tree.children with
  | [initial, _, definitions, _] => do
    let definitions ← Script.listItems "top-level-stmts" definitions
    let reading ← definitions.foldlM Script.addDefinition ⟨⟨.empty, .empty⟩, []⟩
    let initial ← Script.textOf "state-name" initial
    return (⟨reading.value.states, reading.value.shapes, initial⟩, reading.redefined.reverse)
  | _ => .error (Script.unexpected Script.start tree)

end Handheld
