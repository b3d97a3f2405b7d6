import Handheld.Proofs.Expr.Acceptance
import Handheld.Proofs.Expr.Tokens

namespace Handheld.Expr

open Lexer Pattern

variable {expr : Expr} {level : Nat} {tokens : List (Token Kind)} {text body rest : List Char}

-- A name as it is read: its mark and some characters of words.
def IsName (mark : Char) (name : String) : Prop :=
  ∃ chars, chars ≠ [] ∧ (∀ c ∈ chars, wordClass.contains c) ∧ name.toList = mark :: chars

-- An expression without random values whose literals and names can be written down.
inductive Plain : Expr → Prop
  | literal {value : Value} : 0 ≤ value.toInt → Plain (.literal value)
  | var {name : String} : IsName '$' name → Plain (.var name)
  | const {name : String} : IsName '!' name → Plain (.const name)
  | unary {op : UnaryOp} {operand : Expr} : Plain operand → Plain (.unary op operand)
  | binary {op : BinaryOp} {left right : Expr} : Plain left → Plain right →
      Plain (.binary op left right)

def RandomFree : Expr → Prop
  | literal _ | var _ | const _ => True
  | unary _ operand => operand.RandomFree
  | binary _ left right => left.RandomFree ∧ right.RandomFree
  | random _ _ => False

-- What may stand after an expression: a blank before an operator, or the end of its group.
def Closed (rest : List Char) : Prop := ∀ c ∈ rest.head?, c = ' ' ∨ c = ')'

theorem Closed.not_contains {cls : CharClass} (hrest : Closed rest) (hblank : ¬ cls.contains ' ')
    (hparen : ¬ cls.contains ')') : ∀ c ∈ rest.head?, ¬ cls.contains c := by
  intro c hc
  rcases hrest c hc with rfl | rfl
  · exact hblank
  · exact hparen

theorem not_contains_wordClass (hrest : Closed rest) : ∀ c ∈ rest.head?, ¬ wordClass.contains c :=
  hrest.not_contains (by decide) (by decide)

theorem not_contains_digitClass (hrest : Closed rest) : ∀ c ∈ rest.head?, ¬ digitClass.contains c :=
  hrest.not_contains (by decide) (by decide)

theorem decimal?_toDigits (number : Nat) : Text.decimal? (Nat.toDigits 10 number) = some number := by
  have hdigits : (Nat.toDigits 10 number).all Char.isDigit :=
    List.all_eq_true.mpr fun c hc => Nat.isDigit_of_mem_toDigits (by decide) (by decide) hc
  rw [Text.decimal?, if_pos ⟨Nat.toDigits_ne_nil, hdigits⟩]
  exact congrArg some Nat.ofDigitChars_ten_toDigits

-- A value that is not negative is written with its digits alone.
theorem exists_digits {value : Value} (h : 0 ≤ value.toInt) :
    ∃ number : Nat, value.toInt = number ∧ value.text = .ofList (Nat.toDigits 10 number) := by
  obtain ⟨number, hnumber⟩ := Int.eq_ofNat_of_zero_le h
  refine ⟨number, hnumber, ?_⟩
  rw [Value.text, hnumber]
  rfl

theorem mem_operatorSigns_unary (op : UnaryOp) : op.symbol ∈ operatorSigns := by
  cases op <;> decide

theorem mem_operatorSigns_binary (op : BinaryOp) : op.symbol ∈ operatorSigns := by
  cases op <;> decide

-- What follows a prefix operator does not make another operator of it.
theorem Plain.head_text (h : Plain expr) (rest : List Char) : '=' ∉ (expr.text.toList ++ rest).head? := by
  cases h with
  | @literal value hvalue =>
      obtain ⟨number, _, htext⟩ := exists_digits hvalue
      obtain ⟨c, more, hdigits⟩ := List.exists_cons_of_ne_nil (Nat.toDigits_ne_nil (n := number) (b := 10))
      have hc : c.isDigit :=
        Nat.isDigit_of_mem_toDigits (n := number) (by decide) (Nat.le_refl 10) (by simp [hdigits])
      have hne : c ≠ '=' := by
        rintro rfl
        exact absurd hc (by decide)
      simpa [text, htext, hdigits] using hne
  | var hname | const hname =>
      obtain ⟨chars, _, _, hchars⟩ := hname
      simp [text, hchars]
  | @unary op operand => cases op <;> simp [text, UnaryOp.symbol]
  | binary => simp [text]

theorem cuts_operator {symbol : String} (hmem : symbol ∈ operatorSigns) (hrest : '=' ∉ rest.head?) :
    lexer.Cuts (symbol.toList ++ rest) [⟨.operator, symbol, .start⟩] rest := by
  have hcuts := cuts_token symbol.toList (firstMatch?_operator hmem hrest)
  rwa [String.ofList_toList] at hcuts

-- A binary operation in parentheses takes operands that bind tightest.
theorem Phrase.grouped {left right : List (Token Kind)} {opening sign closing : Token Kind} {op : BinaryOp}
    {first second : Expr} (hleft : Phrase tightest left first) (hright : Phrase tightest right second)
    (hopening : opening.kind = .leftParen) (hkind : sign.kind = .operator) (hsign : sign.lexeme = op.symbol)
    (hclosing : closing.kind = .rightParen) :
    Phrase tightest (opening :: (left ++ sign :: right) ++ [closing]) (.binary op first second) := by
  have hlevel := precedence_lt_tightest op
  have hbinary : Phrase op.precedence (left ++ sign :: right) (.binary op first second) :=
    .binary (mem_operatorsOf_precedence op) (hleft.loosen hlevel.le) hkind hsign (hright.loosen hlevel)
  exact .group hopening (hbinary.loosen (one_le_precedence op)) hclosing

theorem Plain.exists_cuts (h : Plain expr) (hrest : Closed rest) :
    ∃ tokens, lexer.Cuts (expr.text.toList ++ rest) tokens rest ∧ Phrase tightest tokens expr := by
  induction h generalizing rest with
  | @literal value hvalue =>
      obtain ⟨number, hnumber, htext⟩ := exists_digits hvalue
      have hfirst := firstMatch?_literal (Nat.toDigits_ne_nil (n := number) (b := 10))
        (fun c hc => contains_digitClass (Nat.isDigit_of_mem_toDigits (by decide) (by decide) hc))
        (not_contains_digitClass hrest)
      have hle : (number : Int) ≤ Int64.maxValue.toInt := hnumber ▸ value.toInt_le
      have hvalue : value = Int64.ofInt number := by rw [← hnumber, Int64.ofInt_toInt]
      refine ⟨[⟨.literal, .ofList (Nat.toDigits 10 number), .start⟩], ?_, ?_⟩
      · rw [text, htext, String.toList_ofList]
        exact cuts_token _ hfirst
      · rw [hvalue]
        exact .literal rfl (by rw [String.toList_ofList, decimal?_toDigits]) hle
  | @var name hname =>
      obtain ⟨chars, hne, hwords, hchars⟩ := hname
      have hfirst := firstMatch?_var hne hwords (not_contains_wordClass hrest)
      refine ⟨[⟨.var, name, .start⟩], ?_, .var rfl⟩
      have hcuts := cuts_token ('$' :: chars) hfirst
      rwa [← hchars, String.ofList_toList] at hcuts
  | @const name hname =>
      obtain ⟨chars, hne, hwords, hchars⟩ := hname
      have hfirst := firstMatch?_const hne hwords (not_contains_wordClass hrest)
      refine ⟨[⟨.const, name, .start⟩], ?_, .const rfl⟩
      have hcuts := cuts_token ('!' :: chars) hfirst
      rwa [← hchars, String.ofList_toList] at hcuts
  | @unary op operand hoperand ih =>
      obtain ⟨tokens, hcuts, hphrase⟩ := ih hrest
      have hsign := cuts_operator (mem_operatorSigns_unary op) (hoperand.head_text rest)
      refine ⟨⟨.operator, op.symbol, .start⟩ :: tokens, ?_, .unary rfl rfl hphrase⟩
      rw [text, String.toList_append, List.append_assoc]
      exact hsign.append hcuts
  | @binary op left right hleft hright ihleft ihright =>
      obtain ⟨second, hsecond, hphrase'⟩ := ihright (show Closed (')' :: rest) by simp [Closed])
      have hsign := cuts_operator (mem_operatorSigns_binary op)
        (show '=' ∉ (' ' :: (right.text.toList ++ ')' :: rest)).head? by simp)
      have hclosed : Closed (' ' :: (op.symbol.toList ++ ' ' :: (right.text.toList ++ ')' :: rest))) := by
        simp [Closed]
      obtain ⟨first, hfirst, hphrase⟩ := ihleft hclosed
      have hopening := cuts_token ['('] (firstMatch?_leftParen
        (left.text.toList ++ ' ' :: (op.symbol.toList ++ ' ' :: (right.text.toList ++ ')' :: rest))))
      have hclosing := cuts_token [')'] (firstMatch?_rightParen rest)
      have hcuts := ((hopening.append hfirst).append (cuts_blank hsign (by simp))).append
        ((cuts_blank hsecond hphrase'.ne_nil).append hclosing)
      have hgroup : Phrase tightest (⟨.leftParen, "(", .start⟩ ::
          (first ++ ⟨.operator, op.symbol, .start⟩ :: second) ++ [⟨.rightParen, ")", .start⟩])
          (.binary op left right) := hphrase.grouped hphrase' rfl rfl rfl rfl
      exact ⟨_, by simpa [text] using hcuts, hgroup⟩

theorem Phrase.first_ne_random (h : Phrase level tokens expr) :
    ∀ first ∈ tokens.head?, first.kind ≠ .random := by
  induction h with
  | @binary level left right sign op first second _ hleft _ _ _ ih _ =>
      rw [List.head?_append_of_ne_nil _ hleft.ne_nil]
      exact ih
  | tighter _ _ ih => exact ih
  | unary hkind | literal hkind | var hkind | const hkind | group hkind => simp [hkind]

theorem ofTokens_of_ne_random (h : ∀ first ∈ tokens.head?, first.kind ≠ .random) :
    ofTokens tokens = ofInfix tokens := by
  cases tokens with
  | nil => rfl
  | cons first tokens => rw [ofTokens, if_neg (h first rfl)]

theorem ofInfix_of_tightest (h : Phrase tightest tokens expr) : ofInfix tokens = .ok expr := by
  have hfold := h.reads.tight [] [] rfl
  refine bind_eq_ok_iff.mpr ⟨_, hfold, ?_⟩
  simp [Infix.wellFormed, Stacks.finish?, Stacks.pushOperand, Stacks.applyWhile?]

theorem Plain.ofBody_text (h : Plain expr) : ofBody expr.text.toList = .ok expr := by
  obtain ⟨tokens, hcuts, hphrase⟩ := h.exists_cuts (show Closed [] by simp [Closed])
  rw [List.append_nil] at hcuts
  rw [ofBody_of_cuts hcuts (by simp [settled_lexer]), ofTokens_of_ne_random hphrase.first_ne_random,
    ofInfix_of_tightest hphrase]

-- What a token can be read as.
def Named (token : Token Kind) : Prop :=
  (token.kind = .var → IsName '$' token.lexeme) ∧ (token.kind = .const → IsName '!' token.lexeme)

theorem isName_of_spells {mark : Char} {name : String}
    (h : (seq (one (.char mark)) (many (one wordClass))).Spells name.toList) : IsName mark name := by
  generalize hchars : name.toList = chars at h
  cases h with
  | @seq _ _ first more hfirst hmore =>
      cases hfirst with
      | one hmark =>
          obtain rfl := CharClass.contains_char_iff.mp hmark
          refine ⟨more, ?_, ?_, hchars⟩
          · cases hmore with
            | none hplus => exact absurd rfl hplus
            | once hone => cases hone; simp
            | more _ hone => cases hone; simp
          · intro c hc
            obtain ⟨cls, hcls, hcontains⟩ := contains_of_spells hmore c hc
            obtain rfl := List.mem_singleton.mp hcls
            exact hcontains

theorem named_of_readBy {token : Token Kind} (h : lexer.ReadBy token) : Named token := by
  obtain ⟨pattern, hrule, hspells⟩ := h
  constructor
  · intro hkind
    obtain rfl : pattern = seq (one (.char '$')) (many (one wordClass)) := by
      simpa [rules_lexer, unmarkedRules, hkind] using hrule
    exact isName_of_spells hspells
  · intro hkind
    obtain rfl : pattern = seq (one (.char '!')) (many (one wordClass)) := by
      simpa [rules_lexer, unmarkedRules, hkind] using hrule
    exact isName_of_spells hspells

-- All operands of a reader are plain: what one token after the other preserves.
def AllPlain (work : Stacks) : Prop := ∀ operand ∈ work.operands, Plain operand

theorem allPlain_pushOperand {operands : List Expr} (pending : List Pending)
    (h : ∀ operand ∈ operands, Plain operand) (hexpr : Plain expr) :
    AllPlain (Stacks.pushOperand operands pending expr) := by
  fun_induction Stacks.pushOperand operands pending expr with
  | case1 pending operand op ih => exact ih (.unary hexpr)
  | case2 => exact List.forall_mem_cons.mpr ⟨hexpr, h⟩

theorem AllPlain.applyLast? {work next : Stacks} (h : AllPlain work)
    (hlast : work.applyLast? = some next) : AllPlain next := by
  unfold Stacks.applyLast? at hlast
  split at hlast
  · rename_i op pending right left operands _ hoperands
    obtain rfl := Option.some.inj hlast
    rw [AllPlain, hoperands] at h
    obtain ⟨hright, hleft, hrest⟩ := by simpa only [List.forall_mem_cons] using h
    exact allPlain_pushOperand pending hrest (.binary hleft hright)
  · simp at hlast

theorem AllPlain.applyWhile? {work next : Stacks} {goOn : Pending → Bool} (h : AllPlain work)
    (hdone : work.applyWhile? goOn = some next) : AllPlain next := by
  fun_induction work.applyWhile? goOn with
  | case1 work hpending => exact Option.some.inj hdone ▸ h
  | case2 work top rest hpending htop hlast => simp at hdone
  | case3 work top rest hpending htop middle hlast ih => exact ih (h.applyLast? hlast) hdone
  | case4 work top rest hpending htop => exact Option.some.inj hdone ▸ h

theorem AllPlain.closeGroup? {work next : Stacks} (h : AllPlain work)
    (hclose : work.closeGroup? = some next) : AllPlain next := by
  obtain ⟨middle, hmiddle, hnext⟩ := Option.bind_eq_some_iff.mp hclose
  have hplain := h.applyWhile? hmiddle
  split at hnext
  · rename_i depth pending operand operands _ hoperands
    rw [AllPlain, hoperands] at hplain
    obtain ⟨hoperand, hrest⟩ := List.forall_mem_cons.mp hplain
    split at hnext
    · obtain rfl := Option.some.inj hnext
      exact allPlain_pushOperand pending hrest hoperand
    · simp at hnext
  · simp at hnext

theorem plain_of_ofDigits? {digits : List Char} {value : Value} (h : Value.ofDigits? digits = some value) :
    Plain (.literal value) := by
  obtain ⟨number, _, hvalue⟩ := Option.bind_eq_some_iff.mp h
  exact .literal ((Value.ofInt?_eq_some_iff.mp hvalue).symm ▸ Int.natCast_nonneg number)

theorem AllPlain.step {reader after : Infix} {token : Token Kind} (h : AllPlain reader.work)
    (hnamed : Named token) (hstep : reader.step token = .ok after) : AllPlain after.work := by
  cases step_eq_ok_iff.mp hstep with
  | openGroup | unary => exact h
  | closeGroup _ hclose => exact h.closeGroup? hclose
  | binary _ _ _ hpush =>
      obtain ⟨middle, hmiddle, hnext⟩ := Option.bind_eq_some_iff.mp hpush
      obtain rfl := Option.some.inj hnext
      have hplain := h.applyWhile? hmiddle
      exact hplain
  | literal _ hvalue => exact allPlain_pushOperand _ h (plain_of_ofDigits? hvalue)
  | var hkind => exact allPlain_pushOperand _ h (.var (hnamed.1 hkind))
  | const hkind => exact allPlain_pushOperand _ h (.const (hnamed.2 hkind))

theorem AllPlain.foldlM {reader after : Infix} (h : AllPlain reader.work)
    (hnamed : ∀ token ∈ tokens, Named token) (hfold : tokens.foldlM Infix.step reader = .ok after) :
    AllPlain after.work := by
  induction tokens generalizing reader with
  | nil =>
      obtain rfl : reader = after := by simpa [pure, Except.pure] using hfold
      exact h
  | cons token tokens ih =>
      rw [List.foldlM_cons] at hfold
      obtain ⟨middle, hmiddle, hfold⟩ := bind_eq_ok_iff.mp hfold
      obtain ⟨hfirst, hrest⟩ := List.forall_mem_cons.mp hnamed
      exact ih (h.step hfirst hmiddle) hrest hfold

theorem plain_of_ofInfix (hnamed : ∀ token ∈ tokens, Named token) (h : ofInfix tokens = .ok expr) :
    Plain expr := by
  obtain ⟨reader, hfold, hfinish⟩ := bind_eq_ok_iff.mp h
  have hstart : AllPlain Infix.start.work := List.forall_mem_nil _
  obtain ⟨middle, hmiddle, hwhole⟩ := Option.bind_eq_some_iff.mp (wellFormed_eq_ok_iff.mp hfinish)
  have hplain := (hstart.foldlM hnamed hfold).applyWhile? hmiddle
  split at hwhole
  · rename_i operand _ hoperands
    obtain rfl := Option.some.inj hwhole
    exact hplain operand (by simp [hoperands])
  · simp at hwhole

-- A reader makes a random value of two bounds, or none at all.
theorem ofInfix_of_randomFree (h : ofTokens tokens = .ok expr) (hfree : expr.RandomFree) :
    ofInfix tokens = .ok expr := by
  unfold ofTokens at h
  split at h
  · exact h
  · split at h
    · obtain ⟨_, first, second, _, _, _, _, rfl⟩ := ofBounds_eq_ok_iff.mp h
      exact hfree.elim
    · exact h

theorem plain_of_ofBody (h : ofBody body = .ok expr) (hfree : expr.RandomFree) : Plain expr := by
  obtain ⟨tokens, rest, hcuts, _, htokens⟩ := exists_cuts_of_ofBody h
  have hnamed : ∀ token ∈ tokens, Named token := fun token hmem => named_of_readBy (hcuts.readBy token hmem)
  exact plain_of_ofInfix hnamed (ofInfix_of_randomFree htokens hfree)

theorem Plain.read_brackets (h : Plain expr) :
    Expression.read ("[" ++ expr.text ++ "]") = .ok ⟨"[" ++ expr.text ++ "]", expr⟩ :=
  Expression.read_brackets_eq_ok_iff.mpr ⟨h.ofBody_text, rfl⟩

-- Reading undoes writing: every plain expression is read back from its text, so no two have one text, and
-- what was read without random values can be written and read again.
theorem read_text :
    (∀ expr, Plain expr → Expression.read ("[" ++ expr.text ++ "]") = .ok ⟨"[" ++ expr.text ++ "]", expr⟩) ∧
    (∀ expr other, Plain expr → Plain other → expr.text = other.text → expr = other) ∧
    ∀ source expression, Expression.read source = .ok expression → expression.root.RandomFree →
      Expression.read ("[" ++ expression.root.text ++ "]") =
        .ok ⟨"[" ++ expression.root.text ++ "]", expression.root⟩ := by
  refine ⟨fun expr => Plain.read_brackets, fun expr other h hother htext => ?_,
    fun source expression hsource hfree => ?_⟩
  · have hbody := h.ofBody_text
    rw [htext, hother.ofBody_text] at hbody
    exact (Except.ok.inj hbody).symm
  · obtain ⟨body, _, hbody, _⟩ := Expression.read_eq_ok_iff.mp hsource
    exact (plain_of_ofBody hbody hfree).read_brackets

-- (~-9223372036854775807 & ($x ~= !A))
def written : Expr :=
  .binary .and (.unary .not (.unary .minus (.literal 9223372036854775807)))
    (.binary .ne (.var "$x") (.const "!A"))

theorem plain_written : Plain written := by
  have hliteral : Plain (.literal 9223372036854775807) := .literal (by decide)
  have hvar : Plain (.var "$x") :=
    .var ⟨['x'], by simp, List.forall_mem_singleton.mpr (by decide), rfl⟩
  have hconst : Plain (.const "!A") :=
    .const ⟨['A'], by simp, List.forall_mem_singleton.mpr (by decide), rfl⟩
  exact .binary (.unary (.unary hliteral)) (.binary hvar hconst)

theorem read_text_written : written.text = "(~-9223372036854775807 & ($x ~= !A))" ∧ Plain written ∧
    written.RandomFree ∧
      Expression.read ("[" ++ written.text ++ "]") = .ok ⟨"[" ++ written.text ++ "]", written⟩ := by
  have hfree : written.RandomFree := ⟨trivial, trivial, trivial⟩
  have hread := read_text.1 written plain_written
  exact ⟨by decide +kernel, plain_written, hfree, read_text.2.2 _ _ hread hfree⟩

end Handheld.Expr
