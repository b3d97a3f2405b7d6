import Handheld.Expr.Basic
import Handheld.Lexer

namespace Handheld.Expr

inductive Kind where
  | leftParen
  | rightParen
  | var
  | const
  | operator
  | literal
  | random
  deriving DecidableEq, Repr

-- A name goes on with the characters of words.
def nameTail : Pattern := .many (.oneOf [.named .word])

-- The signs of the operators, the longer ones before those they begin with.
def operatorSigns : List String :=
  [">=", "<=", ">", "<", "~=", "=", "&", "|", "~", "+", "-", "*", "/", "%"]

def lexer : Lexer Kind where
  rules := [
    (.leftParen, .text "("),
    (.rightParen, .text ")"),
    (.var, .seq (.text "$") nameTail),
    (.const, .seq (.text "!") nameTail),
    (.operator, .choice (operatorSigns.map .text)),
    (.literal, .many (.oneOf [.named .digit])),
    (.random, .text "r")]
  ignored := [.many (.text " ")]
  endMarker := none

inductive Pending where
  -- an open group, with the number of operands below it
  | group (depth : Nat)
  | unary (op : UnaryOp)
  | binary (op : BinaryOp)
  deriving DecidableEq, Repr

-- The two stacks of an infix reader, the latest entry first.
structure Stacks where
  operands : List Expr
  pending : List Pending

namespace Stacks

def empty : Stacks := ⟨[], []⟩

-- An operand takes the prefix operators that wait for it.
def pushOperand (operands : List Expr) : List Pending → Expr → Stacks
  | .unary op :: pending, operand => pushOperand operands pending (.unary op operand)
  | pending, operand => ⟨operand :: operands, pending⟩

-- Applies the latest operator, which must be binary, to the two latest operands.
def applyLast? (work : Stacks) : Option Stacks :=
  match work.pending, work.operands with
  | .binary op :: pending, right :: left :: operands =>
    some (pushOperand operands pending (.binary op left right))
  | _, _ => none

theorem pending_pushOperand_le (operands : List Expr) (pending : List Pending) (operand : Expr) :
    (pushOperand operands pending operand).pending.length ≤ pending.length := by
  fun_induction pushOperand operands pending operand with
  | case1 pending operand op ih => simp; omega
  | case2 => simp

theorem pending_lt_of_applyLast? {work next : Stacks} (h : work.applyLast? = some next) :
    next.pending.length < work.pending.length := by
  unfold applyLast? at h
  split at h
  · rename_i hpending _
    simp only [Option.some.injEq] at h
    subst h
    rw [hpending]
    exact Nat.lt_succ_of_le (pending_pushOperand_le _ _ _)
  · simp at h

def applyWhile? (goOn : Pending → Bool) (work : Stacks) : Option Stacks :=
  match work.pending with
  | [] => some work
  | top :: _ =>
    if goOn top then
      match _h : work.applyLast? with
      | none => none
      | some next => next.applyWhile? goOn
    else some work
termination_by work.pending.length
decreasing_by exact pending_lt_of_applyLast? _h

def openGroup (work : Stacks) : Stacks :=
  ⟨work.operands, .group work.operands.length :: work.pending⟩

def pushUnary (work : Stacks) (op : UnaryOp) : Stacks :=
  ⟨work.operands, .unary op :: work.pending⟩

def isGroup : Pending → Bool
  | .group _ => true
  | _ => false

def bindsAsTight (op : BinaryOp) : Pending → Bool
  | .binary other => op.precedence ≤ other.precedence
  | _ => false

def isBinary : Pending → Bool
  | .binary _ => true
  | _ => false

-- Closes the latest group, which must hold one operand, and makes it an operand itself.
def closeGroup? (work : Stacks) : Option Stacks := do
  let work ← work.applyWhile? (!isGroup ·)
  match work.pending, work.operands with
  | .group depth :: pending, operand :: operands =>
    if operands.length = depth then some (pushOperand operands pending operand) else none
  | _, _ => none

-- Operators of one precedence group from the left.
def pushBinary? (work : Stacks) (op : BinaryOp) : Option Stacks := do
  let work ← work.applyWhile? (bindsAsTight op)
  some ⟨work.operands, .binary op :: work.pending⟩

def finish? (work : Stacks) : Option Expr := do
  let work ← work.applyWhile? isBinary
  match work.pending, work.operands with
  | [], [operand] => some operand
  | _, _ => none

end Stacks

-- An infix reader between two tokens. After an operand an operator is binary, else it is unary.
structure Infix where
  work : Stacks
  afterOperand : Bool

namespace Infix

def start : Infix := ⟨.empty, false⟩

def wellFormed (result : Option α) : Except ExprFault α :=
  match result with
  | some a => .ok a
  | none => .error .malformed

def operand (reader : Infix) (operand : Expr) : Infix :=
  ⟨.pushOperand reader.work.operands reader.work.pending operand, true⟩

-- A number out of range is an overflow as soon as it is read.
def step (reader : Infix) (token : Token Kind) : Except ExprFault Infix :=
  match token.kind with
  | .leftParen => .ok ⟨reader.work.openGroup, false⟩
  | .rightParen => (wellFormed reader.work.closeGroup?).map (⟨·, true⟩)
  | .operator =>
    if reader.afterOperand then wellFormed do
      return ⟨← reader.work.pushBinary? (← BinaryOp.ofSymbol? token.lexeme), false⟩
    else wellFormed do
      return ⟨reader.work.pushUnary (← UnaryOp.ofSymbol? token.lexeme), false⟩
  | .literal => match Value.ofDigits? token.lexeme.toList with
    | some value => .ok (reader.operand (.literal value))
    | none => .error .overflow
  | .var => .ok (reader.operand (.var token.lexeme))
  | .const => .ok (reader.operand (.const token.lexeme))
  | .random => .error .malformed

end Infix

def ofInfix (tokens : List (Token Kind)) : Except ExprFault Expr := do
  let reader ← tokens.foldlM Infix.step .start
  Infix.wellFormed reader.work.finish?

-- The number of tokens up to the end of an open group, given how many groups are open.
def groupLength? : (depth : Nat) → List (Token Kind) → Option Nat
  | _, [] => none
  | depth, token :: rest =>
    match token.kind, depth with
    | .rightParen, 0 => none
    | .rightParen, 1 => some 1
    | .rightParen, depth + 1 => (groupLength? depth rest).map (· + 1)
    | .leftParen, depth => (groupLength? (depth + 1) rest).map (· + 1)
    | _, depth => (groupLength? depth rest).map (· + 1)

-- The number of tokens of the atom at the start: prefix operators, then an operand or a group.
def atomLength? : List (Token Kind) → Option Nat
  | [] => none
  | token :: rest =>
    match token.kind with
    | .operator => (atomLength? rest).map (· + 1)
    | .literal | .var | .const => some 1
    | .leftParen => (groupLength? 1 rest).map (· + 1)
    | .rightParen | .random => none

-- Reads the two bounds of a random value, each of them one atom.
def ofBounds (tokens : List (Token Kind)) : Except ExprFault Expr := do
  let count ← Infix.wellFormed (atomLength? tokens)
  let second := tokens.drop count
  if atomLength? second ≠ some second.length then throw .malformed
  return .random (← ofInfix (tokens.take count)) (← ofInfix second)

def ofTokens (tokens : List (Token Kind)) : Except ExprFault Expr :=
  match tokens with
  | [] => ofInfix []
  | first :: rest => if first.kind = .random then ofBounds rest else ofInfix tokens

def ofBody (body : List Char) : Except ExprFault Expr :=
  match lexer.tokens (String.ofList body) with
  | .ok tokens => ofTokens tokens
  | .error _ => .error .malformed

end Handheld.Expr
