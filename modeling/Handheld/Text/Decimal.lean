namespace Handheld.Text

def decimal? (digits : List Char) : Option Nat :=
  if digits ≠ [] ∧ digits.all Char.isDigit then
    some (digits.foldl (fun n c => 10 * n + (c.toNat - '0'.toNat)) 0)
  else none

def unsigned? : List Char → Option Nat
  | '+' :: digits => decimal? digits
  | digits => decimal? digits

def signed? : List Char → Option Int
  | '-' :: digits => (decimal? digits).map fun n => -(n : Int)
  | digits => (unsigned? digits).map Int.ofNat

end Handheld.Text
