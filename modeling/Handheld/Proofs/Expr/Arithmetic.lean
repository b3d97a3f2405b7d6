import Handheld.Expr.Operator
import Mathlib.Algebra.Ring.Int.Defs

namespace Handheld

namespace Value

-- The integers that are values.
def InRange (n : Int) : Prop := -2 ^ 63 ≤ n ∧ n < 2 ^ 63

instance (n : Int) : Decidable (InRange n) := inferInstanceAs (Decidable (_ ∧ _))

theorem inRange_toInt (v : Value) : InRange v.toInt := ⟨v.le_toInt, v.toInt_lt⟩

theorem toInt_ofInt {n : Int} (h : InRange n) : (Int64.ofInt n).toInt = n :=
  Int64.toInt_ofInt_of_le h.1 h.2

theorem toInt_eq_zero_iff {v : Value} : v.toInt = 0 ↔ v = 0 := Int64.toInt_inj (y := 0)

theorem neg_iff {v : Value} : v < 0 ↔ v.toInt < 0 := Int64.lt_iff_toInt_lt (y := 0)

theorem ofInt?_eq (n : Int) : ofInt? n = if InRange n then some (Int64.ofInt n) else none := by
  have hrange : (Int64.minValue.toInt ≤ n ∧ n ≤ Int64.maxValue.toInt) ↔ InRange n := by
    simp only [InRange, Int64.toInt_minValue, Int64.toInt_maxValue]
    omega
  simp only [ofInt?, hrange]

theorem ofInt_ite (p : Prop) [Decidable p] : Int64.ofInt (if p then 1 else 0) = ofBool p := by
  by_cases h : p <;> simp [h, ofBool]

theorem inRange_ite (p : Prop) [Decidable p] : InRange (if p then 1 else 0) := by
  by_cases h : p <;> simp [h, InRange]

end Value

open Value

namespace UnaryOp

-- What an operator says of integers, whatever their size.
def exact : UnaryOp → Int → Int
  | plus, a => a
  | minus, a => -a
  | not, a => if a = 0 then 1 else 0

theorem apply_eq (op : UnaryOp) (a : Value) :
    op.apply a = if InRange (op.exact a.toInt) then some (Int64.ofInt (op.exact a.toInt)) else none := by
  cases op with
  | plus => simp [apply, exact, inRange_toInt]
  | minus => exact ofInt?_eq _
  | not =>
      simp only [apply, exact, inRange_ite, ofInt_ite, if_true, toInt_eq_zero_iff]

end UnaryOp

namespace BinaryOp

-- The quotient of two integers is rounded down, and what it leaves over goes with it. A divisor 0
-- has no meaning here.
def exact : BinaryOp → Int → Int → Int
  | mul, a, b => a * b
  | div, a, b => a.fdiv b
  | mod, a, b => a.fmod b
  | add, a, b => a + b
  | sub, a, b => a - b
  | eq, a, b => if a = b then 1 else 0
  | ne, a, b => if a ≠ b then 1 else 0
  | lt, a, b => if a < b then 1 else 0
  | gt, a, b => if b < a then 1 else 0
  | le, a, b => if a ≤ b then 1 else 0
  | ge, a, b => if b ≤ a then 1 else 0
  | and, a, b => if a ≠ 0 ∧ b ≠ 0 then 1 else 0
  | or, a, b => if a ≠ 0 ∨ b ≠ 0 then 1 else 0

-- When the exact result of an operator is none: a divisor 0, or a result that is no value. The least
-- value has no remainder by -1 either, though 0 would be one.
def error? (op : BinaryOp) (a b : Int) : Option ArithmeticError :=
  if (op = div ∨ op = mod) ∧ b = 0 then some .divisionByZero
  else if InRange (op.exact a b) ∧ ¬(op = mod ∧ a = -2 ^ 63 ∧ b = -1) then none
  else some .overflow

theorem inRange_of_error? {op : BinaryOp} {a b : Int} (h : op.error? a b = none) :
    InRange (op.exact a b) := by
  simp only [error?] at h
  split at h
  · simp at h
  · split at h
    · rename_i hrange
      exact hrange.1
    · simp at h

theorem divisionError?_eq (a b : Value) : divisionError? a b =
    if b.toInt = 0 then some .divisionByZero
    else if a.toInt = -2 ^ 63 ∧ b.toInt = -1 then some .overflow else none := by
  have hleast : a.toInt = -2 ^ 63 ↔ a = Int64.minValue := by
    rw [← Int64.toInt_minValue, Int64.toInt_inj]
  have hone : b.toInt = -1 ↔ b = -1 := Int64.toInt_inj (y := -1)
  simp only [divisionError?, toInt_eq_zero_iff, hleast, hone]

section Division

variable {a b : Int}

-- A rest has the sign of the dividend.
theorem tmod_neg_iff (hrest : a.tmod b ≠ 0) : a.tmod b < 0 ↔ a < 0 := by
  rcases Int.lt_or_le a 0 with ha | ha
  · have hneg := Int.tmod_nonneg b (show 0 ≤ -a by omega)
    rw [Int.neg_tmod] at hneg
    omega
  · have hnonneg := Int.tmod_nonneg b ha
    omega

theorem fdiv_eq (hb : b ≠ 0) : a.fdiv b =
    if a.tmod b ≠ 0 ∧ ¬(a < 0 ↔ b < 0) then a.tdiv b - 1 else a.tdiv b := by
  have hdvd : b ∣ a ↔ a.tmod b = 0 := Int.dvd_iff_tmod_eq_zero
  have hneg (h : b < 0) : b.sign = -1 := Int.sign_eq_neg_one_of_neg h
  have hpos (h : 0 < b) : b.sign = 1 := Int.sign_eq_one_of_pos h
  rw [Int.fdiv_eq_tdiv]
  by_cases hrest : a.tmod b = 0
  · simp [hdvd, hrest]
  · simp only [hdvd, hrest, if_false, ne_eq, not_false_eq_true, true_and]
    rcases Int.lt_or_gt_of_ne hb with hb | hb
    · have hb' : ¬ 0 ≤ b := by omega
      by_cases ha : 0 ≤ a
      · have ha' : ¬ a < 0 := by omega
        simp [ha, ha', hb, hb']
      · have ha' : a < 0 := by omega
        simp [ha, ha', hb, hb', hneg hb]
    · have hb' : ¬ b < 0 := by omega
      by_cases ha : 0 ≤ a
      · have ha' : ¬ a < 0 := by omega
        simp [ha, ha', hb', Int.le_of_lt hb]
      · have ha' : a < 0 := by omega
        simp [ha, ha', hb', Int.le_of_lt hb, hpos hb]

theorem fmod_eq (hb : b ≠ 0) : a.fmod b =
    if a.tmod b ≠ 0 ∧ ¬(a.tmod b < 0 ↔ b < 0) then a.tmod b + b else a.tmod b := by
  have hfdiv := Int.mul_fdiv_add_fmod a b
  have htdiv := Int.mul_tdiv_add_tmod a b
  rw [fdiv_eq hb] at hfdiv
  by_cases hrest : a.tmod b = 0
  · simp [hrest] at hfdiv htdiv ⊢
    omega
  · simp only [tmod_neg_iff hrest]
    by_cases hsigns : a < 0 ↔ b < 0
    · simp only [hsigns, not_true_eq_false, and_false, if_false] at hfdiv ⊢
      omega
    · simp only [hrest, hsigns, ne_eq, not_false_eq_true, and_self, if_true] at hfdiv ⊢
      rw [Int.mul_sub, Int.mul_one] at hfdiv
      omega

-- The quotients of values are values but for one. A quotient that leaves something over is not even
-- the least value, so it can be corrected.
theorem inRange_tdiv (ha : InRange a) (hb : b ≠ 0) (hleast : ¬(a = -2 ^ 63 ∧ b = -1)) :
    InRange (a.tdiv b) ∧ (a.tmod b ≠ 0 → InRange (a.tdiv b - 1)) := by
  obtain ⟨hlow, hhigh⟩ := ha
  by_cases hone : b.natAbs = 1
  · rcases Int.natAbs_eq_iff.mp hone with rfl | rfl
    · rw [Int.natCast_one, Int.tdiv_one, Int.tmod_one]
      simp only [InRange]
      omega
    · have hnegative : a.tdiv (-1) = -a := by rw [Int.tdiv_neg, Int.tdiv_one]
      have hrest : a.tmod (-1) = 0 := by rw [Int.tmod_neg, Int.tmod_one]
      simp only [Int.natCast_one, InRange, hnegative, hrest]
      omega
  · have hhalf : (a.tdiv b).natAbs ≤ a.natAbs / 2 := by
      rw [Int.natAbs_tdiv]
      exact Nat.div_le_div_left (by omega) (by decide)
    simp only [InRange]
    omega

theorem inRange_fmod (hb : InRange b) (hzero : b ≠ 0) : InRange (a.fmod b) := by
  have hlt : (a.tmod b).natAbs < b.natAbs := by
    rw [Int.natAbs_tmod]
    exact Nat.mod_lt _ (by omega)
  rw [fmod_eq hzero]
  simp only [InRange] at hb ⊢
  split <;> omega

end Division

variable {a b : Value}

theorem mod_ne_zero_iff : a % b ≠ 0 ↔ a.toInt.tmod b.toInt ≠ 0 := by
  rw [← Int64.toInt_mod, ne_eq, ne_eq, toInt_eq_zero_iff]

theorem toInt_div (hleast : ¬(a.toInt = -2 ^ 63 ∧ b.toInt = -1)) :
    (a / b).toInt = a.toInt.tdiv b.toInt := by
  by_cases hone : b = -1
  · refine Int64.toInt_div_of_ne_left a b ?_
    rintro rfl
    exact hleast ⟨Int64.toInt_minValue, by rw [hone]; rfl⟩
  · exact Int64.toInt_div_of_ne_right a b hone

-- The corrections stay in range too.
theorem toInt_div_sub_one (hzero : b.toInt ≠ 0) (hleast : ¬(a.toInt = -2 ^ 63 ∧ b.toInt = -1))
    (hrest : a.toInt.tmod b.toInt ≠ 0) : (a / b - 1).toInt = a.toInt.tdiv b.toInt - 1 := by
  obtain ⟨hlow, hhigh⟩ := (inRange_tdiv (inRange_toInt a) hzero hleast).2 hrest
  have hone : (1 : Int64).toInt = 1 := rfl
  rw [Int64.toInt_sub, toInt_div hleast, hone, Int.bmod_eq_of_le (by omega) (by omega)]

theorem toInt_mod_add (hzero : b.toInt ≠ 0)
    (hcorrect : a.toInt.tmod b.toInt ≠ 0 ∧ ¬(a.toInt.tmod b.toInt < 0 ↔ b.toInt < 0)) :
    (a % b + b).toInt = a.toInt.tmod b.toInt + b.toInt := by
  have hrange : InRange (a.toInt.fmod b.toInt) := inRange_fmod (inRange_toInt b) hzero
  rw [fmod_eq hzero, if_pos hcorrect] at hrange
  obtain ⟨hlow, hhigh⟩ := hrange
  rw [Int64.toInt_add, Int64.toInt_mod, Int.bmod_eq_of_le (by omega) (by omega)]

theorem exists_floorDiv (hzero : b.toInt ≠ 0) (hleast : ¬(a.toInt = -2 ^ 63 ∧ b.toInt = -1)) :
    ∃ v, floorDiv a b = .ok v ∧ v.toInt = a.toInt.fdiv b.toInt := by
  refine ⟨_, by simp only [floorDiv, divisionError?_eq, hzero, hleast, if_false]; rfl, ?_⟩
  rw [fdiv_eq hzero]
  simp only [mod_ne_zero_iff, neg_iff]
  split
  · rename_i hcorrect
    exact toInt_div_sub_one hzero hleast hcorrect.1
  · exact toInt_div hleast

theorem exists_floorMod (hzero : b.toInt ≠ 0) (hleast : ¬(a.toInt = -2 ^ 63 ∧ b.toInt = -1)) :
    ∃ v, floorMod a b = .ok v ∧ v.toInt = a.toInt.fmod b.toInt := by
  refine ⟨_, by simp only [floorMod, divisionError?_eq, hzero, hleast, if_false]; rfl, ?_⟩
  rw [fmod_eq hzero]
  simp only [mod_ne_zero_iff, neg_iff, Int64.toInt_mod]
  split
  · rename_i hcorrect
    exact toInt_mod_add hzero hcorrect
  · exact Int64.toInt_mod a b

theorem inRange_eq (n : Int) :
    inRange n = if InRange n then .ok (Int64.ofInt n) else .error .overflow := by
  by_cases h : InRange n <;> simp [inRange, ofInt?_eq, h]

-- An operator gives the exact result where it is a value, and fails where it is none.
theorem apply_eq (op : BinaryOp) (a b : Value) : op.apply a b =
    match op.error? a.toInt b.toInt with
    | some error => .error error
    | none => .ok (Int64.ofInt (op.exact a.toInt b.toInt)) := by
  have hinj (v w : Value) : v.toInt = w.toInt ↔ v = w := Int64.toInt_inj
  have hlt (v w : Value) : v.toInt < w.toInt ↔ v < w := Int64.lt_iff_toInt_lt.symm
  have hle (v w : Value) : v.toInt ≤ w.toInt ↔ v ≤ w := Int64.le_iff_toInt_le.symm
  cases op with
  | mul | add | sub =>
      simp only [apply, inRange_eq, error?, exact, reduceCtorEq, or_self, false_and, if_false,
        not_false_eq_true, and_true]
      split <;> rfl
  | eq | ne | lt | gt | le | ge | and | or =>
      simp only [apply, error?, exact, reduceCtorEq, or_self, false_and, if_false, not_false_eq_true,
        and_true, inRange_ite, if_true, ofInt_ite, hinj, toInt_eq_zero_iff, hlt, hle, ne_eq]
  | div =>
      by_cases hb : b.toInt = 0
      · simp [apply, floorDiv, divisionError?_eq, error?, hb]
      · by_cases hleast : a.toInt = -2 ^ 63 ∧ b.toInt = -1
        · simp [apply, floorDiv, divisionError?_eq, error?, exact, hleast, InRange]
        · obtain ⟨v, hv, hexact⟩ := exists_floorDiv hb hleast
          simp [apply, hv, error?, exact, hb, ← hexact, inRange_toInt]
  | mod =>
      by_cases hb : b.toInt = 0
      · simp [apply, floorMod, divisionError?_eq, error?, hb]
      · by_cases hleast : a.toInt = -2 ^ 63 ∧ b.toInt = -1
        · simp [apply, floorMod, divisionError?_eq, error?, hleast]
        · obtain ⟨v, hv, hexact⟩ := exists_floorMod hb hleast
          simp only [apply, hv, error?, exact, hb, ← hexact, inRange_toInt, hleast, and_false, if_false,
            and_self, not_false_eq_true, if_true, Int64.ofInt_toInt]

end BinaryOp

end Handheld
