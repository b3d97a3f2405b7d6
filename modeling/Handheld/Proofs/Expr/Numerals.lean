import Handheld.Proofs.Expr.Evaluation
import Handheld.Proofs.Expr.Literals
import Handheld.Proofs.Expr.Rendering

namespace Handheld

variable {value operand : Value} {digits : List Char}

theorem Value.ofDigits?_toDigits (number : Nat) :
    ofDigits? (Nat.toDigits 10 number) = ofInt? number := by
  rw [ofDigits?, Expr.decimal?_toDigits]
  rfl

-- A value below zero is written with a minus before its digits.
theorem Value.exists_digits_of_neg (h : value.toInt < 0) :
    ∃ number : Nat, -value.toInt = number ∧
      value.text = UnaryOp.minus.symbol ++ .ofList (Nat.toDigits 10 number) := by
  obtain ⟨number, hnumber⟩ := Int.eq_negSucc_of_lt_zero h
  refine ⟨number + 1, by rw [hnumber, Int.neg_negSucc], ?_⟩
  rw [text, hnumber]
  rfl

-- The least value alone has no negation.
theorem UnaryOp.minus_eq_none_iff : minus.apply value = none ↔ value = Int64.minValue := by
  have hlow := value.minValue_le_toInt
  have hhigh := value.toInt_le
  rw [apply, Value.ofInt?_eq_none_iff, ← Int64.toInt_inj, Int64.toInt_minValue, Int64.toInt_maxValue] at *
  omega

theorem UnaryOp.minus_minus (h : minus.apply value = some operand) : minus.apply operand = some value := by
  have hoperand : operand.toInt = -value.toInt := Value.ofInt?_eq_some_iff.mp h
  exact Value.ofInt?_eq_some_iff.mpr (by rw [hoperand, Int.neg_neg])

namespace Expr

theorem contains_digitClass_of_mem_toDigits {number : Nat} :
    ∀ c ∈ Nat.toDigits 10 number, digitClass.contains c := fun _ hc =>
  contains_digitClass (Nat.isDigit_of_mem_toDigits (by decide) (by decide) hc)

-- A sign before a row of digits is an operator and no part of the literal.
theorem ofBody_signed (op : UnaryOp) (hne : digits ≠ [])
    (hdigits : ∀ c ∈ digits, digitClass.contains c) :
    ofBody (op.symbol.toList ++ digits) = match Value.ofDigits? digits with
      | some value => .ok (.unary op (.literal value))
      | none => .error .overflow := by
  have hhead : '=' ∉ digits.head? := fun hmem =>
    absurd (hdigits '=' (List.mem_of_mem_head? hmem)) (by decide)
  have hfirst : Lexer.firstMatch? lexer.rules (digits ++ []) = some (.literal, digits.length) :=
    firstMatch?_literal hne hdigits (by simp)
  have hliteral := cuts_token digits hfirst
  rw [List.append_nil] at hliteral
  have hcuts := (cuts_operator (mem_operatorSigns_unary op) hhead).append hliteral
  rw [ofBody_of_cuts hcuts List.drop_nil]
  cases hvalue : Value.ofDigits? digits with
  | none =>
      have hop : UnaryOp.ofSymbol? op.symbol = some op := UnaryOp.ofSymbol?_symbol op
      simp [ofTokens, ofInfix, Infix.step, Infix.start, Infix.wellFormed, hop, hvalue, bind, Except.bind]
  | some value =>
      have hphrase : Phrase tightest [⟨.operator, op.symbol, .start⟩, ⟨.literal, .ofList digits, .start⟩]
          (.unary op (.literal value)) :=
        .unary rfl rfl (phrase_of_ofDigits? rfl (by simpa using hvalue))
      exact (ofTokens_of_ne_random hphrase.first_ne_random).trans (ofInfix_of_tightest hphrase)

theorem ofBody_text_of_nonneg (h : 0 ≤ value.toInt) : ofBody value.text.toList = .ok (.literal value) := by
  obtain ⟨number, hnumber, htext⟩ := exists_digits h
  rw [htext, String.toList_ofList, ofBody_digits Nat.toDigits_ne_nil contains_digitClass_of_mem_toDigits,
    Value.ofDigits?_toDigits, Value.ofInt?_eq_some_iff.mpr hnumber]

-- A value below zero is read as the negation of its own negation.
theorem ofBody_text_of_neg (h : value.toInt < 0) :
    ofBody value.text.toList = match UnaryOp.minus.apply value with
      | some operand => .ok (.unary .minus (.literal operand))
      | none => .error .overflow := by
  obtain ⟨number, hnumber, htext⟩ := Value.exists_digits_of_neg h
  rw [htext, String.toList_append, String.toList_ofList, ofBody_signed .minus Nat.toDigits_ne_nil
    contains_digitClass_of_mem_toDigits, Value.ofDigits?_toDigits, UnaryOp.apply, hnumber]

end Expr

namespace Expression

open Handheld.Expr

-- An expression with one value, whatever its names stand for. It draws nothing.
def AlwaysIs (expression : Expression) (value : Value) : Prop :=
  ∀ (ρ : Type) [RandomSource ρ] (scope : Scope) (source : ρ),
    (expression.eval scope).run source = (.ok value, source)

theorem alwaysIs_literal (text : String) (value : Value) : AlwaysIs ⟨text, .literal value⟩ value :=
  fun _ _ _ _ => rfl

theorem alwaysIs_unary {op : UnaryOp} (text : String) (h : op.apply operand = some value) :
    AlwaysIs ⟨text, .unary op (.literal operand)⟩ value := by
  intro ρ _ scope source
  simp only [run_eval, Expr.eval, pure_bind, h]
  rfl

theorem read_text_literal (value : Value) : read (literal value).text = match ofBody value.text.toList with
    | .ok root => .ok ⟨(literal value).text, root⟩
    | .error fault => .error ⟨fault, (literal value).text⟩ := by
  have hbody : body? (literal value).text.toList = some value.text.toList := body?_brackets value.text
  have hfault : readFault (literal value).text = ofBody value.text.toList := by simp only [readFault, hbody]
  cases hroot : ofBody value.text.toList with
  | ok root => simp only [read, hfault, hroot]
  | error fault => simp only [read, hfault, hroot]

-- The text of a value is read as an expression that always is this value. That of the least value is not
-- read: the number behind its sign is too large for a literal.
theorem reread_literal (value : Value) :
    (value ≠ Int64.minValue → ∃ expression, read (literal value).text = .ok expression ∧
      expression.AlwaysIs value ∧ (literal value).AlwaysIs value) ∧
    (value = Int64.minValue → read (literal value).text = .error ⟨.overflow, (literal value).text⟩) := by
  have hliteral := alwaysIs_literal (literal value).text value
  rw [read_text_literal]
  by_cases hneg : value.toInt < 0
  · rw [ofBody_text_of_neg hneg]
    constructor
    · intro hleast
      obtain ⟨operand, hoperand⟩ := Option.ne_none_iff_exists'.mp (mt UnaryOp.minus_eq_none_iff.mp hleast)
      rw [hoperand]
      exact ⟨_, rfl, alwaysIs_unary _ (UnaryOp.minus_minus hoperand), hliteral⟩
    · intro hleast
      rw [UnaryOp.minus_eq_none_iff.mpr hleast]
  · rw [ofBody_text_of_nonneg (not_lt.mp hneg)]
    refine ⟨fun _ => ⟨_, rfl, hliteral, hliteral⟩, ?_⟩
    rintro rfl
    exact absurd (by decide) hneg

theorem reread_literal_ends : (-9223372036854775807 : Value) ≠ Int64.minValue ∧
    (literal (-9223372036854775807)).text = "[-9223372036854775807]" ∧
    (∃ expression, read "[-9223372036854775807]" = .ok expression ∧
      expression.AlwaysIs (-9223372036854775807)) ∧
    read "[-9223372036854775808]" = .error ⟨.overflow, "[-9223372036854775808]"⟩ := by
  have htext : (literal (-9223372036854775807)).text = "[-9223372036854775807]" := by decide +kernel
  have hleast : (literal Int64.minValue).text = "[-9223372036854775808]" := by decide +kernel
  obtain ⟨expression, hread, halways, _⟩ := (reread_literal (-9223372036854775807)).1 (by decide)
  exact ⟨by decide, htext, ⟨expression, htext ▸ hread, halways⟩,
    hleast ▸ (reread_literal Int64.minValue).2 rfl⟩

-- A literal has the least value, but its text is not read.
theorem read_least : (literal Int64.minValue).AlwaysIs Int64.minValue ∧
    (literal Int64.minValue).text = "[-9223372036854775808]" ∧
    read "[-9223372036854775808]" = .error ⟨.overflow, "[-9223372036854775808]"⟩ := by
  have htext : (literal Int64.minValue).text = "[-9223372036854775808]" := by decide +kernel
  have hneg : Int64.minValue.toInt < 0 := by decide
  refine ⟨alwaysIs_literal _ _, htext, ?_⟩
  rw [← htext, read_text_literal, ofBody_text_of_neg hneg, UnaryOp.minus_eq_none_iff.mpr rfl]

end Expression

end Handheld
