import Handheld.Proofs.Expr.Arithmetic
import Mathlib.Data.Rat.Floor

namespace Handheld.BinaryOp

open Value

variable {a b value : Value} {error : ArithmeticError}

-- The quotient of two values rounded down and what it leaves over, as integers of any size.
def quotient (a b : Value) : Int := ⌊(a.toInt : ℚ) / (b.toInt : ℚ)⌋

def remainder (a b : Value) : Int := a.toInt - b.toInt * quotient a b

-- The operands whose quotient is one too large for a value.
def LeastByMinusOne (a b : Value) : Prop := a.toInt = -2 ^ 63 ∧ b.toInt = -1

-- The steps of a division in machine arithmetic have the results that they have in unbounded integers.
structure StepsExact (a b : Value) : Prop where
  truncated : (a / b).toInt = a.toInt.tdiv b.toInt
  rest : (a % b).toInt = a.toInt.tmod b.toInt
  lowered : a % b ≠ 0 ∧ ¬(a < 0 ↔ b < 0) → (a / b - 1).toInt = (a / b).toInt - 1
  raised : a % b ≠ 0 ∧ ¬(a % b < 0 ↔ b < 0) → (a % b + b).toInt = (a % b).toInt + b.toInt

theorem fdiv_eq_floor (a b : Int) : a.fdiv b = ⌊(a : ℚ) / (b : ℚ)⌋ := by
  have hnonneg (a : Int) (n : Nat) : a.fdiv n = ⌊(a : ℚ) / (n : ℚ)⌋ := by
    rw [Int.fdiv_eq_ediv_of_nonneg a (Int.natCast_nonneg n), Rat.floor_intCast_div_natCast]
  obtain ⟨n, rfl | rfl⟩ := Int.eq_nat_or_neg b
  · exact hnonneg a n
  · have hneg : a.fdiv (-n) = (-a).fdiv n := by rw [← Int.neg_fdiv_neg, Int.neg_neg]
    rw [hneg, hnonneg]
    push_cast
    rw [neg_div, div_neg]

theorem quotient_eq (a b : Value) : quotient a b = a.toInt.fdiv b.toInt :=
  (fdiv_eq_floor a.toInt b.toInt).symm

theorem remainder_eq (a b : Value) : remainder a b = a.toInt.fmod b.toInt := by
  rw [remainder, quotient_eq, Int.fmod_def]

theorem quotient_leastByMinusOne (h : LeastByMinusOne a b) : quotient a b = 2 ^ 63 := by
  rw [quotient_eq, h.1, h.2]
  rfl

theorem inRange_quotient_iff (hb : b ≠ 0) : InRange (quotient a b) ↔ ¬ LeastByMinusOne a b := by
  have hzero : b.toInt ≠ 0 := by rwa [ne_eq, toInt_eq_zero_iff]
  constructor
  · intro hrange hleast
    rw [quotient_leastByMinusOne hleast] at hrange
    exact absurd hrange (by decide)
  · intro hleast
    obtain ⟨value, _, hvalue⟩ := exists_floorDiv hzero hleast
    rw [quotient_eq, ← hvalue]
    exact inRange_toInt value

theorem inRange_remainder (hb : b ≠ 0) : InRange (remainder a b) := by
  rw [remainder_eq]
  exact inRange_fmod (inRange_toInt b) (by rwa [ne_eq, toInt_eq_zero_iff])

theorem stepsExact (hb : b ≠ 0) (hleast : ¬ LeastByMinusOne a b) : StepsExact a b := by
  have hzero : b.toInt ≠ 0 := by rwa [ne_eq, toInt_eq_zero_iff]
  have hdiv := toInt_div hleast
  have hmod := Int64.toInt_mod a b
  constructor
  case truncated => exact hdiv
  case rest => exact hmod
  case lowered =>
    rintro ⟨hrest, _⟩
    rw [hdiv]
    exact toInt_div_sub_one hzero hleast (mod_ne_zero_iff.mp hrest)
  case raised =>
    intro hcorrect
    rw [mod_ne_zero_iff, neg_iff, neg_iff, hmod] at hcorrect
    rw [hmod]
    exact toInt_mod_add hzero hcorrect

theorem floorDiv_of_least (h : LeastByMinusOne a b) : floorDiv a b = .error .overflow := by
  obtain ⟨ha, hb⟩ := h
  simp [floorDiv, divisionError?_eq, ha, hb]

theorem floorMod_of_least (h : LeastByMinusOne a b) : floorMod a b = .error .overflow := by
  obtain ⟨ha, hb⟩ := h
  simp [floorMod, divisionError?_eq, ha, hb]

theorem floorDiv_eq_ok_iff (hb : b ≠ 0) : floorDiv a b = .ok value ↔ value.toInt = quotient a b := by
  by_cases hleast : LeastByMinusOne a b
  · have hrange : ¬ InRange (quotient a b) := fun h => (inRange_quotient_iff hb).mp h hleast
    rw [floorDiv_of_least hleast]
    simp only [reduceCtorEq, false_iff]
    exact fun h => hrange (h ▸ inRange_toInt value)
  · obtain ⟨found, hfound, hexact⟩ := exists_floorDiv (by rwa [ne_eq, toInt_eq_zero_iff]) hleast
    rw [hfound, Except.ok.injEq, quotient_eq, ← hexact, Int64.toInt_inj, eq_comm]

theorem floorDiv_eq_error_iff (hb : b ≠ 0) :
    floorDiv a b = .error error ↔ error = .overflow ∧ ¬ InRange (quotient a b) := by
  rw [inRange_quotient_iff hb, not_not]
  by_cases hleast : LeastByMinusOne a b
  · simp [floorDiv_of_least hleast, hleast, eq_comm]
  · obtain ⟨found, hfound, _⟩ := exists_floorDiv (by rwa [ne_eq, toInt_eq_zero_iff]) hleast
    simp [hfound, hleast]

theorem floorMod_eq_ok_iff (hb : b ≠ 0) : floorMod a b = .ok value ↔
    value.toInt = remainder a b ∧ ¬ LeastByMinusOne a b := by
  by_cases hleast : LeastByMinusOne a b
  · simp [floorMod_of_least hleast, hleast]
  · obtain ⟨found, hfound, hexact⟩ := exists_floorMod (by rwa [ne_eq, toInt_eq_zero_iff]) hleast
    rw [hfound, Except.ok.injEq, remainder_eq, ← hexact, Int64.toInt_inj, eq_comm]
    simp [hleast]

theorem floorMod_eq_error_iff (hb : b ≠ 0) :
    floorMod a b = .error error ↔ error = .overflow ∧ LeastByMinusOne a b := by
  by_cases hleast : LeastByMinusOne a b
  · simp [floorMod_of_least hleast, hleast, eq_comm]
  · obtain ⟨found, hfound, _⟩ := exists_floorMod (by rwa [ne_eq, toInt_eq_zero_iff]) hleast
    simp [hfound, hleast]

-- By a divisor that is not 0, division gives the quotient rounded down unless it is too large for a value.
-- What is left over is never too large, and is given unless the quotient is too large. Short of that no step
-- on the way is out of range.
theorem division_exact (hb : b ≠ 0) :
    (∀ value, div.apply a b = .ok value ↔ value.toInt = quotient a b) ∧
    (∀ error, div.apply a b = .error error ↔ error = .overflow ∧ ¬ InRange (quotient a b)) ∧
    (InRange (quotient a b) ↔ ¬ LeastByMinusOne a b) ∧
    InRange (remainder a b) ∧
    (∀ value, mod.apply a b = .ok value ↔ value.toInt = remainder a b ∧ ¬ LeastByMinusOne a b) ∧
    (∀ error, mod.apply a b = .error error ↔ error = .overflow ∧ LeastByMinusOne a b) ∧
    (¬ LeastByMinusOne a b → StepsExact a b) := by
  refine ⟨?_, ?_, ?_, ?_, ?_, ?_, ?_⟩
  · exact fun value => floorDiv_eq_ok_iff hb
  · exact fun error => floorDiv_eq_error_iff hb
  · exact inRange_quotient_iff hb
  · exact inRange_remainder hb
  · exact fun value => floorMod_eq_ok_iff hb
  · exact fun error => floorMod_eq_error_iff hb
  · exact stepsExact hb

theorem division_exact_ends : (-1 : Value) ≠ 0 ∧ div.apply Int64.minValue (-1) = .error .overflow ∧
    (3 : Value) ≠ 0 ∧ ¬ LeastByMinusOne Int64.minValue 3 ∧ StepsExact Int64.minValue 3 := by
  have hrange : ¬ InRange (quotient Int64.minValue (-1)) := by
    rw [quotient_eq]
    decide
  have hleast : ¬ LeastByMinusOne Int64.minValue 3 := by
    unfold LeastByMinusOne
    decide
  have hsteps := (division_exact (a := Int64.minValue) (b := 3) (by decide)).2.2.2.2.2.2
  refine ⟨by decide, ?_, by decide, hleast, hsteps hleast⟩
  exact ((division_exact (by decide)).2.1 _).mpr ⟨rfl, hrange⟩

-- The least value leaves nothing over by -1, but its remainder fails as its quotient does.
theorem mod_least : (-1 : Value) ≠ 0 ∧ remainder Int64.minValue (-1) = 0 ∧
    mod.apply Int64.minValue (-1) = .error .overflow := by
  refine ⟨by decide, ?_, by decide⟩
  rw [remainder_eq]
  decide

end Handheld.BinaryOp
