import Handheld.Expr.Reader

namespace Handheld

-- An expression together with the text it was written as, which its errors quote.
structure Expression where
  text : String
  root : Expr
  deriving DecidableEq, Repr

namespace Expression

-- The text between an opening bracket at its start and a closing one at its end.
def body? : List Char → Option (List Char)
  | '[' :: rest => if rest.getLast? = some ']' then some rest.dropLast else none
  | _ => none

def readFault (text : String) : Except ExprFault Expr :=
  match body? text.toList with
  | some body => Expr.ofBody body
  | none => .error .malformed

def read (text : String) : Except ExprError Expression :=
  match readFault text with
  | .ok root => .ok ⟨text, root⟩
  | .error fault => .error ⟨fault, text⟩

def random (first second : Expression) : Expression :=
  ⟨s!"r {first.text} {second.text}", .random first.root second.root⟩

def literal (value : Value) : Expression := ⟨s!"[{value.text}]", .literal value⟩

def eval {ρ : Type} [RandomSource ρ] (expression : Expression) (scope : Scope) :
    ExceptT ExprError (StateM ρ) Value :=
  (expression.root.eval scope).adapt fun fault => ⟨fault, expression.text⟩

end Expression

end Handheld
