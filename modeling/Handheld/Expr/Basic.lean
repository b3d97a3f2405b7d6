import Handheld.Expr.Operator

namespace Handheld

-- An expression. Names keep the sign that marks them, `$` for a variable and `!` for a constant.
inductive Expr where
  | literal (value : Value)
  | var (name : String)
  | const (name : String)
  | unary (op : UnaryOp) (operand : Expr)
  | binary (op : BinaryOp) (left right : Expr)
  -- a random value between two bounds, which may come in either order
  | random (first second : Expr)
  deriving DecidableEq, Repr

inductive ExprFault where
  | divisionByZero
  | malformed
  | unknownConstant (name : String)
  | overflow
  deriving DecidableEq, Repr

-- A fault with the text of the whole expression that has it.
structure ExprError where
  fault : ExprFault
  expression : String
  deriving DecidableEq, Repr

namespace ExprError

def message (error : ExprError) : String :=
  match error.fault with
  | .divisionByZero => s!"Cannot divide by zero, problem in expression {error.expression}"
  | .malformed => s!"Invalid expression {error.expression}"
  | .unknownConstant name => s!"Unknown constant {name} in expression {error.expression}"
  | .overflow => s!"Integer overflow in expression {error.expression}"

end ExprError

-- A supply of random values. A draw lies between its bounds, and `low ≤ high`.
class RandomSource (ρ : Type) where
  draw : (low high : Value) → ρ → Value × ρ

structure Scope where
  var : String → Value
  const? : String → Option Value

namespace Expr

-- The expression with a pair of parentheses around each binary operation.
def text : Expr → String
  | literal value => value.text
  | var name => name
  | const name => name
  | unary op operand => op.symbol ++ operand.text
  | binary op left right => "(" ++ left.text ++ " " ++ op.symbol ++ " " ++ right.text ++ ")"
  | random first second => "r(" ++ first.text ++ ", " ++ second.text ++ ")"

-- A computation that may draw random values and may fail. What was drawn before a failure stays drawn.
abbrev Eval (ρ : Type) := ExceptT ExprFault (StateM ρ)

def ofArithmetic : ArithmeticError → ExprFault
  | .divisionByZero => .divisionByZero
  | .overflow => .overflow

variable {ρ : Type} [RandomSource ρ]

def draw (first second : Value) : Eval ρ Value :=
  if first ≤ second then modifyGet (RandomSource.draw first second)
  else modifyGet (RandomSource.draw second first)

-- The value of an expression. Both operands are evaluated, the left one first.
def eval (scope : Scope) : Expr → Eval ρ Value
  | literal value => pure value
  | var name => pure (scope.var name)
  | const name => match scope.const? name with
    | some value => pure value
    | none => throw (.unknownConstant name)
  | unary op operand => do
    match op.apply (← operand.eval scope) with
    | some value => pure value
    | none => throw .overflow
  | binary op left right => do
    let a ← left.eval scope
    let b ← right.eval scope
    match op.apply a b with
    | .ok value => pure value
    | .error error => throw (ofArithmetic error)
  | random first second => do
    let a ← first.eval scope
    let b ← second.eval scope
    draw a b

end Expr

end Handheld
