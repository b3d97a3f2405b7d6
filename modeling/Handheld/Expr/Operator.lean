import Handheld.Expr.Value

namespace Handheld

inductive ArithmeticError where
  | divisionByZero
  | overflow
  deriving DecidableEq, Repr

inductive UnaryOp where
  | plus
  | minus
  | not
  deriving DecidableEq, Repr

namespace UnaryOp

def symbol : UnaryOp → String
  | plus => "+"
  | minus => "-"
  | not => "~"

def all : List UnaryOp := [plus, minus, not]

def ofSymbol? (symbol : String) : Option UnaryOp := all.find? (·.symbol = symbol)

-- Negation of the least value has no result; `not` is 1 for 0 and 0 for all else.
def apply : UnaryOp → Value → Option Value
  | plus, a => some a
  | minus, a => Value.ofInt? (-a.toInt)
  | not, a => some (.ofBool (a = 0))

theorem ofSymbol?_symbol (op : UnaryOp) : ofSymbol? op.symbol = some op := by
  cases op <;> rfl

end UnaryOp

inductive BinaryOp where
  | mul
  | div
  | mod
  | add
  | sub
  | eq
  | ne
  | lt
  | gt
  | le
  | ge
  | and
  | or
  deriving DecidableEq, Repr

namespace BinaryOp

def symbol : BinaryOp → String
  | mul => "*"
  | div => "/"
  | mod => "%"
  | add => "+"
  | sub => "-"
  | eq => "="
  | ne => "~="
  | lt => "<"
  | gt => ">"
  | le => "<="
  | ge => ">="
  | and => "&"
  | or => "|"

def all : List BinaryOp := [mul, div, mod, add, sub, eq, ne, lt, gt, le, ge, and, or]

def ofSymbol? (symbol : String) : Option BinaryOp := all.find? (·.symbol = symbol)

def precedence : BinaryOp → Nat
  | mul | div | mod => 4
  | add | sub => 3
  | eq | ne | lt | gt | le | ge => 2
  | and | or => 1

def inRange (n : Int) : Except ArithmeticError Value :=
  match Value.ofInt? n with
  | some v => .ok v
  | none => .error .overflow

-- Why two values have neither quotient nor remainder. The
-- least value by -1 has a quotient that is one too large.
def divisionError? (a b : Value) : Option ArithmeticError :=
  if b = 0 then some .divisionByZero
  else if a = Int64.minValue ∧ b = -1 then some .overflow
  else none

-- The quotient rounded down. Division rounds towards zero, which is
-- one too high where the signs differ and something is left over.
def floorDiv (a b : Value) : Except ArithmeticError Value :=
  match divisionError? a b with
  | some error => .error error
  | none => .ok (if a % b ≠ 0 ∧ ¬(a < 0 ↔ b < 0) then a / b - 1 else a / b)

-- What the quotient rounded down leaves over. Division leaves over a rest with the sign of the dividend;
-- this one has the sign of the divisor.
def floorMod (a b : Value) : Except ArithmeticError Value :=
  match divisionError? a b with
  | some error => .error error
  | none => .ok (if a % b ≠ 0 ∧ ¬(a % b < 0 ↔ b < 0) then a % b + b else a % b)

-- Comparisons and logic give 1 or 0; any value but 0 counts as true.
def apply (op : BinaryOp) (a b : Value) : Except ArithmeticError Value :=
  match op with
  | mul => inRange (a.toInt * b.toInt)
  | div => floorDiv a b
  | mod => floorMod a b
  | add => inRange (a.toInt + b.toInt)
  | sub => inRange (a.toInt - b.toInt)
  | eq => .ok (.ofBool (a = b))
  | ne => .ok (.ofBool (a ≠ b))
  | lt => .ok (.ofBool (a < b))
  | gt => .ok (.ofBool (b < a))
  | le => .ok (.ofBool (a ≤ b))
  | ge => .ok (.ofBool (b ≤ a))
  | and => .ok (.ofBool (a ≠ 0 ∧ b ≠ 0))
  | or => .ok (.ofBool (a ≠ 0 ∨ b ≠ 0))

theorem ofSymbol?_symbol (op : BinaryOp) : ofSymbol? op.symbol = some op := by
  cases op <;> rfl

end BinaryOp

end Handheld
