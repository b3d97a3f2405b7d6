import Handheld.Text.Decimal

namespace Handheld

-- The numbers of the game language: signed, 64 bits wide.
abbrev Value := Int64

namespace Value

def ofInt? (n : Int) : Option Value :=
  if Int64.minValue.toInt ≤ n ∧ n ≤ Int64.maxValue.toInt then some (Int64.ofInt n) else none

def ofBool (b : Bool) : Value := if b then 1 else 0

-- A size too large for a value counts as the largest one.
def ofSize (n : Nat) : Value := Int64.ofInt (min n Int64.maxValue.toInt)

def ofDigits? (digits : List Char) : Option Value := do ofInt? (← Text.decimal? digits)

def text (v : Value) : String := toString v.toInt

theorem ofInt?_eq_some_iff {n : Int} {v : Value} : ofInt? n = some v ↔ v.toInt = n := by
  unfold ofInt?
  split
  · rename_i range
    have hlt : n < Int64.maxValue.toInt + 1 := by omega
    have hn : (Int64.ofInt n).toInt = n := Int64.toInt_ofInt_of_le range.1 hlt
    simp only [Option.some.injEq]
    constructor
    · rintro rfl
      exact hn
    · intro h
      rw [← h, Int64.ofInt_toInt]
  · rename_i range
    simp only [reduceCtorEq, false_iff]
    rintro rfl
    exact range ⟨v.minValue_le_toInt, v.toInt_le⟩

theorem ofInt?_eq_none_iff {n : Int} :
    ofInt? n = none ↔ n < Int64.minValue.toInt ∨ Int64.maxValue.toInt < n := by
  unfold ofInt?
  split
  · simp only [reduceCtorEq, false_iff]
    omega
  · simp only [true_iff]
    omega

end Value

end Handheld
