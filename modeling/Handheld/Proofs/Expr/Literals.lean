import Handheld.Proofs.Expr.Faults
import Handheld.Proofs.Expr.Tokens
import Handheld.Proofs.Lexer.Places

namespace Handheld

namespace Text

-- The digit that a character stands for. The digits of a script follow each other from 0 to 9, and those of
-- several scripts may be in one range.
def digitValue (c : Char) : Nat :=
  ((digitChars.ranges.find? fun range => range.1 ≤ c.toNat ∧ c.toNat ≤ range.2).map fun range =>
    (c.toNat - range.1) % 10).getD 0

-- The number that a row of digits stands for, whatever their scripts.
def decimalValue (digits : List Char) : Nat := digits.foldl (fun n c => 10 * n + digitValue c) 0

theorem digitValue_of_isDigit {c : Char} (h : c.isDigit) : digitValue c = c.toNat - '0'.toNat := by
  obtain ⟨hlow, hhigh⟩ := Char.isDigit_iff_toNat.mp h
  have hfind : digitChars.ranges.find? (fun range => range.1 ≤ c.toNat ∧ c.toNat ≤ range.2) =
      some (48, 57) :=
    List.find?_cons_of_pos (by simpa using ⟨hlow, hhigh⟩)
  rw [digitValue, hfind, Option.map_some, Option.getD_some]
  have hwidth : '9'.toNat - '0'.toNat < 10 := by decide
  have hlt : c.toNat - 48 < 10 := lt_of_le_of_lt (Nat.sub_le_sub_right hhigh 48) hwidth
  exact Nat.mod_eq_of_lt hlt

theorem decimal?_eq_some {digits : List Char} (hne : digits ≠ []) (h : ∀ c ∈ digits, c.isDigit) :
    decimal? digits = some (decimalValue digits) := by
  have hall : digits.all Char.isDigit := List.all_eq_true.mpr h
  rw [decimal?, if_pos ⟨hne, hall⟩, decimalValue]
  congr 1
  exact List.foldl_ext _ _ _ fun n c hc => by rw [digitValue_of_isDigit (h c hc)]

theorem decimal?_eq_none {digits : List Char} (h : ∃ c ∈ digits, ¬ c.isDigit) : decimal? digits = none := by
  obtain ⟨c, hc, hnot⟩ := h
  refine if_neg fun hdigits => ?_
  exact hnot (List.all_eq_true.mp hdigits.2 c hc)

end Text

open Text

-- A row of digits that does not become a value: it stands for a number above the largest value, 2^63 - 1, or has
-- digits of a script that numbers are not read in.
def Value.Unread (digits : List Char) : Prop :=
  Int64.maxValue.toInt < decimalValue digits ∨ ∃ c ∈ digits, ¬ c.isDigit

theorem Value.ofDigits?_eq_none_iff {digits : List Char} (hne : digits ≠ []) :
    ofDigits? digits = none ↔ Unread digits := by
  by_cases hdigits : ∀ c ∈ digits, c.isDigit
  · have hnone : ¬ ∃ c ∈ digits, ¬ c.isDigit := by simpa using hdigits
    have hmin : Int64.minValue.toInt < 0 := by decide
    rw [ofDigits?, decimal?_eq_some hne hdigits, Option.bind_eq_bind, Option.bind_some, ofInt?_eq_none_iff,
      Unread, or_iff_left hnone]
    omega
  · have hsome : ∃ c ∈ digits, ¬ c.isDigit := by simpa using hdigits
    rw [ofDigits?, decimal?_eq_none hsome]
    exact iff_of_true rfl (.inr hsome)

namespace Expr

open Lexer

variable {body digits : List Char}

-- The text of a literal.
def literal? : Except LexicalError (Token Kind) → Option (List Char)
  | .ok token => if token.kind = .literal then some token.lexeme.toList else none
  | .error _ => none

-- The literals of a text, as far as it can be cut into tokens.
def literalsOf (body : List Char) : List (List Char) := (lexer.run (.ofList body)).filterMap literal?

theorem literal?_eq_some_iff {out : Except LexicalError (Token Kind)} :
    literal? out = some digits ↔ ∃ token, out = .ok token ∧ token.kind = .literal ∧
      token.lexeme.toList = digits := by
  cases out <;> simp [literal?]

-- A literal is a row of digits in the text.
theorem digits_of_mem_literalsOf (h : digits ∈ literalsOf body) :
    digits ≠ [] ∧ (∀ c ∈ digits, digitClass.contains c) ∧ digits <:+: body := by
  obtain ⟨out, hout, hliteral⟩ := List.mem_filterMap.mp h
  obtain ⟨token, rfl, hkind, rfl⟩ := literal?_eq_some_iff.mp hliteral
  have htiling := tiling_run lexer (.ofList body)
  rw [String.toList_ofList] at htiling
  obtain ⟨pattern, hrule, hspells⟩ := htiling.readBy rfl token hout
  have hpattern : pattern = .many (.one digitClass) := by
    rw [hkind] at hrule
    simpa [rules_lexer, unmarkedRules] using hrule
  subst hpattern
  obtain ⟨hne, hdigits⟩ := Pattern.spells_many_one_iff.mp hspells
  rcases htiling.exists_textOf _ hout with ⟨_, _, hmarker, _⟩ | ⟨before, after, htext, _, _⟩
  · simp [lexer] at hmarker
  · exact ⟨hne, hdigits, before, after, by simpa [textOf] using htext.symm⟩

theorem exists_unread_of_ofBody (h : ofBody body = .error .overflow) :
    ∃ digits ∈ literalsOf body, Value.Unread digits := by
  rcases fault_of_ofBody h with hmalformed | ⟨tokens, htokens, hmalformed | ⟨_, token, htoken, hkind, hnone⟩⟩
  · simp at hmalformed
  · simp at hmalformed
  · have hmem : token.lexeme.toList ∈ literalsOf body := by
      rw [literalsOf, tokens_eq_ok_iff.mp htokens]
      exact List.mem_filterMap.mpr
        ⟨_, List.mem_map_of_mem htoken, literal?_eq_some_iff.mpr ⟨token, rfl, hkind, rfl⟩⟩
    exact ⟨_, hmem, (Value.ofDigits?_eq_none_iff (digits_of_mem_literalsOf hmem).1).mp hnone⟩

theorem finish?_operand (operand : Expr) : (Infix.start.operand operand).work.finish? = some operand := by
  have hnone : (Infix.start.operand operand).work.applyWhile? Stacks.isBinary =
      some (Infix.start.operand operand).work :=
    Stacks.applyWhile?_of_false (by simp [Infix.operand, Infix.start, Stacks.empty, Stacks.pushOperand])
  rw [Stacks.finish?, hnone]
  rfl

-- A row of digits alone is a literal.
theorem ofBody_digits (hne : digits ≠ []) (hdigits : ∀ c ∈ digits, digitClass.contains c) :
    ofBody digits = match Value.ofDigits? digits with
      | some value => .ok (.literal value)
      | none => .error .overflow := by
  have hfirst : firstMatch? lexer.rules (digits ++ []) = some (.literal, digits.length) :=
    firstMatch?_literal hne hdigits (by simp)
  have hcuts := cuts_token digits hfirst
  have hrest : lexer.settled [] = [] := List.drop_nil
  rw [List.append_nil] at hcuts
  rw [ofBody_of_cuts hcuts hrest]
  cases hvalue : Value.ofDigits? digits with
  | none => simp [ofTokens, ofInfix, Infix.step, hvalue, bind, Except.bind]
  | some value =>
      simp [ofTokens, ofInfix, Infix.step, hvalue, bind, Except.bind, pure, Except.pure, finish?_operand,
        Infix.wellFormed]

end Expr

namespace Expression

open Handheld.Expr

-- The literals of an expression, if it is one.
def literals (text : String) : List (List Char) := ((body? text.toList).map literalsOf).getD []

theorem infix_of_body? {text body : List Char} (h : body? text = some body) : body <:+: text := by
  unfold body? at h
  split at h
  · rename_i rest
    split at h
    · obtain rfl := Option.some.inj h
      exact (List.dropLast_prefix rest).isInfix.trans (List.suffix_cons '[' rest).isInfix
    · simp at h
  · simp at h

theorem exists_body_of_mem_literals {text : String} {digits : List Char} (h : digits ∈ literals text) :
    ∃ body, body? text.toList = some body ∧ digits ∈ literalsOf body := by
  unfold literals at h
  cases hbody : body? text.toList with
  | none => simp [hbody] at h
  | some body => exact ⟨body, rfl, by simpa [hbody] using h⟩

theorem exists_unread_of_read {text : String} {error : ExprError} (h : read text = .error error)
    (hfault : error.fault = .overflow) : ∃ digits ∈ literals text, Value.Unread digits := by
  unfold read at h
  split at h
  · simp at h
  · rename_i fault hread
    obtain rfl := Except.error.inj h
    unfold readFault at hread
    split at hread
    · rename_i body hbody
      subst hfault
      simpa [literals, hbody] using exists_unread_of_ofBody hread
    · subst hfault
      simp at hread

theorem read_digits {digits : List Char} (hne : digits ≠ [])
    (hdigits : ∀ c ∈ digits, digitClass.contains c) :
    read ("[" ++ .ofList digits ++ "]") = .error ⟨.overflow, "[" ++ .ofList digits ++ "]"⟩ ↔
      Value.Unread digits := by
  rw [← Value.ofDigits?_eq_none_iff hne, read, readFault, body?_brackets, String.toList_ofList]
  dsimp only
  rw [ofBody_digits hne hdigits]
  cases Value.ofDigits? digits <;> simp

-- A text is read, or is no expression, or has a literal that does not become a value. If all its literals are
-- rows of the digits 0 to 9 and stand for values, nothing overflows; a literal alone overflows exactly if not.
theorem overflow_only_by_literal (text : String) :
    ((∃ expression, read text = .ok expression) ∨ read text = .error ⟨.malformed, text⟩ ∨
      read text = .error ⟨.overflow, text⟩) ∧
    (read text = .error ⟨.overflow, text⟩ → ∃ digits ∈ literals text,
      Int64.maxValue.toInt < decimalValue digits ∨ ∃ c ∈ digits, ¬ c.isDigit) ∧
    ((∀ digits ∈ literals text, decimalValue digits ≤ Int64.maxValue.toInt ∧ ∀ c ∈ digits, c.isDigit) →
      (∃ expression, read text = .ok expression) ∨ read text = .error ⟨.malformed, text⟩) ∧
    (∀ digits ∈ literals text,
      digits ≠ [] ∧ (∀ c ∈ digits, digitClass.contains c) ∧ digits <:+: text.toList) ∧
    (∀ digits, digits ≠ [] → (∀ c ∈ digits, digitClass.contains c) →
      (read ("[" ++ .ofList digits ++ "]") = .error ⟨.overflow, "[" ++ .ofList digits ++ "]"⟩ ↔
        Int64.maxValue.toInt < decimalValue digits ∨ ∃ c ∈ digits, ¬ c.isDigit)) := by
  have hread : (∃ expression, read text = .ok expression) ∨ read text = .error ⟨.malformed, text⟩ ∨
      read text = .error ⟨.overflow, text⟩ := by
    cases hresult : read text with
    | ok expression => exact .inl ⟨expression, rfl⟩
    | error error =>
        obtain ⟨fault, quoted⟩ := error
        obtain ⟨rfl, rfl | rfl⟩ := eq_of_read_error hresult
        · exact .inr (.inl rfl)
        · exact .inr (.inr rfl)
  refine ⟨hread, fun h => exists_unread_of_read h rfl, fun hliterals => ?_, fun digits hdigits => ?_,
    fun digits hne hdigits => read_digits hne hdigits⟩
  · rcases hread with hok | hmalformed | hoverflow
    · exact .inl hok
    · exact .inr hmalformed
    · obtain ⟨digits, hmem, hlarge | ⟨c, hc, hother⟩⟩ := exists_unread_of_read hoverflow rfl
      · exact absurd (hliterals digits hmem).1 (by omega)
      · exact absurd ((hliterals digits hmem).2 c hc) hother
  · obtain ⟨body, hbody, hmem⟩ := exists_body_of_mem_literals hdigits
    obtain ⟨hne, hclass, hinfix⟩ := digits_of_mem_literalsOf hmem
    exact ⟨hne, hclass, hinfix.trans (infix_of_body? hbody)⟩

theorem overflow_only_by_literal_bounds :
    (∀ digits ∈ literals "[r 12 9223372036854775807]",
      decimalValue digits ≤ Int64.maxValue.toInt ∧ ∀ c ∈ digits, c.isDigit) ∧
    ((∃ expression, read "[r 12 9223372036854775807]" = .ok expression) ∨
      read "[r 12 9223372036854775807]" = .error ⟨.malformed, "[r 12 9223372036854775807]"⟩) ∧
    read "[9223372036854775808]" = .error ⟨.overflow, "[9223372036854775808]"⟩ := by
  have hbody : body? "[r 12 9223372036854775807]".toList = some "r 12 9223372036854775807".toList := by decide
  have hliterals : literals "[r 12 9223372036854775807]" =
      ["12".toList, "9223372036854775807".toList] := by
    rw [literals, hbody, Option.map_some, Option.getD_some, literalsOf, Lexer.run_eq_pullUpTo]
    cbv
  have hsmall : ∀ digits ∈ literals "[r 12 9223372036854775807]",
      decimalValue digits ≤ Int64.maxValue.toInt ∧ ∀ c ∈ digits, c.isDigit := by
    have hdigits : ∀ digits ∈ ["12".toList, "9223372036854775807".toList],
        decimalValue digits ≤ Int64.maxValue.toInt ∧ digits.all Char.isDigit := by decide
    rw [hliterals]
    exact fun digits hmem => (hdigits digits hmem).imp_right List.all_eq_true.mp
  refine ⟨hsmall, (overflow_only_by_literal _).2.2.1 hsmall, ?_⟩
  have hclass : ∀ c ∈ "9223372036854775808".toList, digitClass.contains c := List.all_eq_true.mp (by decide)
  have hlarge : Int64.maxValue.toInt < decimalValue "9223372036854775808".toList := by decide
  exact ((overflow_only_by_literal "").2.2.2.2 _ (by decide) hclass).mpr (.inl hlarge)

-- The digit three of another script stands for a small number and still overflows.
theorem overflow_small : literals "[٣]" = [['٣']] ∧ decimalValue ['٣'] = 3 ∧
    read "[٣]" = .error ⟨.overflow, "[٣]"⟩ := by
  refine ⟨?_, by decide, ?_⟩
  · have hbody : body? "[٣]".toList = some "٣".toList := by decide
    rw [literals, hbody, Option.map_some, Option.getD_some, literalsOf, Lexer.run_eq_pullUpTo]
    cbv
  · exact (@read_digits ['٣'] (by decide) (List.all_eq_true.mp (by decide))).mpr (.inr ⟨'٣', by simp, by decide⟩)

end Expression

end Handheld
