import Handheld.Expression
import Handheld.Proofs.Expr.Infix
import Handheld.Proofs.Lexer.Cutting

namespace Handheld.Expr

open Lexer Pattern

variable {c : Char} {name digits body rest : List Char} {kind : Kind} {count : Nat}
  {tokens : List (Token Kind)} {expr : Expr}

def wordClass : CharClass := .named .word

def digitClass : CharClass := .named .digit

-- The rules for tokens that no parenthesis or mark of a name begins.
def unmarkedRules : List (Kind × Pattern) := [
  (.operator, .choice (operatorSigns.map .text)),
  (.literal, .many (one digitClass)),
  (.random, .text "r")]

-- The rules of expressions with their classes written out.
theorem rules_lexer : lexer.rules =
    (.leftParen, .text "(") ::
    (.rightParen, .text ")") ::
    (.var, .seq (one (.char '$')) (many (one wordClass))) ::
    (.const, .seq (one (.char '!')) (many (one wordClass))) ::
    unmarkedRules := rfl

theorem ne_empty_of_mem_operatorSigns : ∀ symbol ∈ operatorSigns, symbol ≠ "" := by decide

theorem matchLength?_operatorSigns (text : List Char) :
    (choice (operatorSigns.map .text)).matchLength? text =
      (operatorSigns.find? (·.toList.isPrefixOf text)).map (·.toList.length) :=
  matchLength?_choice (by decide) ne_empty_of_mem_operatorSigns text

-- What each kind of token begins with.
theorem firstMatch?_leftParen (rest : List Char) :
    firstMatch? lexer.rules ('(' :: rest) = some (.leftParen, 1) := by
  simp [rules_lexer, firstMatch?_cons, matchLength?_text, List.isPrefixOf]

theorem firstMatch?_rightParen (rest : List Char) :
    firstMatch? lexer.rules (')' :: rest) = some (.rightParen, 1) := by
  simp [rules_lexer, firstMatch?_cons, matchLength?_text, List.isPrefixOf]

theorem takeWhile_append_of_head? {p : Char → Bool} {taken rest : List Char} (htaken : ∀ c ∈ taken, p c)
    (hrest : ∀ c ∈ rest.head?, ¬ p c) : (taken ++ rest).takeWhile p = taken := by
  rw [List.takeWhile_append_of_pos htaken]
  cases rest with
  | nil => simp
  | cons c rest =>
      have hc : p c = false := by simpa using hrest
      simp [hc]

theorem firstMatch?_var (hne : name ≠ []) (hname : ∀ c ∈ name, wordClass.contains c)
    (hrest : ∀ c ∈ rest.head?, ¬ wordClass.contains c) :
    firstMatch? lexer.rules ('$' :: (name ++ rest)) = some (.var, name.length + 1) := by
  have htail : (many (one wordClass)).matchLength? (name ++ rest) = some name.length := by
    rw [matchLength?_many, takeWhile_append_of_head? hname hrest, if_neg hne]
  simp [rules_lexer, firstMatch?_cons, matchLength?_text, List.isPrefixOf, matchLength?_seq_many_cons,
    CharClass.contains_char_iff, htail]

theorem firstMatch?_const (hne : name ≠ []) (hname : ∀ c ∈ name, wordClass.contains c)
    (hrest : ∀ c ∈ rest.head?, ¬ wordClass.contains c) :
    firstMatch? lexer.rules ('!' :: (name ++ rest)) = some (.const, name.length + 1) := by
  have htail : (many (one wordClass)).matchLength? (name ++ rest) = some name.length := by
    rw [matchLength?_many, takeWhile_append_of_head? hname hrest, if_neg hne]
  simp [rules_lexer, firstMatch?_cons, matchLength?_text, List.isPrefixOf, matchLength?_seq_many_cons,
    CharClass.contains_char_iff, htail]

-- The characters that the other rules begin with.
def markChars : List Char := ['(', ')', '$', '!']

theorem firstMatch?_of_notMem (hc : c ∉ markChars) (text : List Char) :
    firstMatch? lexer.rules (c :: text) = firstMatch? unmarkedRules (c :: text) := by
  simp only [markChars, List.mem_cons, List.not_mem_nil, or_false, not_or] at hc
  simp [rules_lexer, firstMatch?_cons, matchLength?_text, matchLength?_seq_many_cons, List.isPrefixOf,
    CharClass.contains_char_iff, hc, Ne.symm hc.1, Ne.symm hc.2.1]

theorem head_notMem_markChars : ∀ symbol ∈ operatorSigns, ∀ c ∈ symbol.toList.head?, c ∉ markChars := by
  simp [operatorSigns, markChars]

theorem find?_operatorSigns : ∀ symbol ∈ operatorSigns,
    operatorSigns.find? (·.toList.isPrefixOf symbol.toList) = some symbol := by
  decide

theorem eq_of_mem_tail_operatorSigns : ∀ symbol ∈ operatorSigns, ∀ c ∈ symbol.toList.tail, c = '=' := by
  simp [operatorSigns]

-- No sign goes on with anything but an equals sign.
theorem endsBefore_operatorSigns (hc : c ≠ '=') : (choice (operatorSigns.map .text)).EndsBefore c := by
  refine endsBefore_choice (by decide) fun symbol hmem => ⟨ne_empty_of_mem_operatorSigns symbol hmem, ?_⟩
  exact fun htail => hc (eq_of_mem_tail_operatorSigns symbol hmem c htail)

theorem firstMatch?_operator {symbol : String} (hmem : symbol ∈ operatorSigns)
    (hrest : '=' ∉ rest.head?) :
    firstMatch? lexer.rules (symbol.toList ++ rest) = some (.operator, symbol.toList.length) := by
  have hne : symbol.toList ≠ [] := by simpa using ne_empty_of_mem_operatorSigns symbol hmem
  have hmatch : (choice (operatorSigns.map .text)).matchLength? (symbol.toList ++ rest) =
      some symbol.toList.length := by
    have halone : (choice (operatorSigns.map .text)).matchLength? symbol.toList =
        some symbol.toList.length := by
      rw [matchLength?_operatorSigns, find?_operatorSigns symbol hmem, Option.map_some]
    cases rest with
    | nil => rw [List.append_nil, halone]
    | cons c rest =>
        have hc : c ≠ '=' := by simpa using hrest
        rw [endsBefore_operatorSigns hc _ rest hne, halone]
  obtain ⟨c, more, hsymbol⟩ := List.exists_cons_of_ne_nil hne
  have hc : c ∉ markChars := head_notMem_markChars symbol hmem c (by simp [hsymbol])
  rw [hsymbol] at hmatch ⊢
  rw [List.cons_append] at hmatch ⊢
  rw [firstMatch?_of_notMem hc, unmarkedRules, firstMatch?_cons, hmatch]
  rfl

theorem matchLength?_operatorSigns_of_head? (hc : ∀ symbol ∈ operatorSigns, c ∉ symbol.toList.head?)
    (text : List Char) : (choice (operatorSigns.map .text)).matchLength? (c :: text) = none := by
  rw [matchLength?_operatorSigns, Option.map_eq_none_iff, List.find?_eq_none]
  intro symbol hmem
  have hhead := hc symbol hmem
  cases hsymbol : symbol.toList with
  | nil => exact absurd (by simpa using hsymbol) (ne_empty_of_mem_operatorSigns symbol hmem)
  | cons d more =>
      have hd : d ≠ c := by simpa [hsymbol] using hhead
      simp [List.isPrefixOf, hd]

theorem inRanges_of_head? {code low high : Nat} {ranges : List (Nat × Nat)}
    (h : (low, high) ∈ ranges.head?) (hlow : low ≤ code) (hhigh : code ≤ high) :
    Text.inRanges code ranges := by
  obtain ⟨rest, rfl⟩ := List.head?_eq_some_iff.mp h
  simp [Text.inRanges, hlow, hhigh]

theorem contains_digitClass (h : c.isDigit) : digitClass.contains c := by
  obtain ⟨hlow, hhigh⟩ := Char.isDigit_iff_toNat.mp h
  exact inRanges_of_head? rfl hlow hhigh

theorem firstMatch?_literal (hne : digits ≠ []) (hdigits : ∀ c ∈ digits, digitClass.contains c)
    (hrest : ∀ c ∈ rest.head?, ¬ digitClass.contains c) :
    firstMatch? lexer.rules (digits ++ rest) = some (.literal, digits.length) := by
  have hmatch : (many (one digitClass)).matchLength? (digits ++ rest) = some digits.length := by
    rw [matchLength?_many, takeWhile_append_of_head? hdigits hrest, if_neg hne]
  obtain ⟨c, more, rfl⟩ := List.exists_cons_of_ne_nil hne
  have hdigit : digitClass.contains c := hdigits c (by simp)
  have hmark : c ∉ markChars := by
    have hmarks : markChars.any digitClass.contains = false := by decide
    intro hmem
    simp [List.any_eq_false.mp hmarks c hmem] at hdigit
  have hsign : ∀ symbol ∈ operatorSigns, c ∉ symbol.toList.head? := by
    have hsigns : ∀ symbol ∈ operatorSigns, (symbol.toList.head?.map digitClass.contains) = some false := by
      decide
    intro symbol hmem hhead
    have hdigit' := hsigns symbol hmem
    simp [Option.mem_def.mp hhead, hdigit] at hdigit'
  rw [List.cons_append] at hmatch ⊢
  rw [firstMatch?_of_notMem hmark, unmarkedRules, firstMatch?_cons,
    matchLength?_operatorSigns_of_head? hsign, firstMatch?_cons, hmatch]
  rfl

theorem firstMatch?_random (rest : List Char) :
    firstMatch? lexer.rules ('r' :: rest) = some (.random, 1) := by
  have hdigit : digitClass.contains 'r' = false := by decide
  rw [firstMatch?_of_notMem (by decide), unmarkedRules, firstMatch?_cons,
    matchLength?_operatorSigns_of_head? (by decide), firstMatch?_cons, matchLength?_many]
  simp [hdigit, firstMatch?_cons, matchLength?_text, List.isPrefixOf]

theorem firstMatch?_blank (rest : List Char) : firstMatch? lexer.rules (' ' :: rest) = none := by
  have hdigit : digitClass.contains ' ' = false := by decide
  rw [firstMatch?_of_notMem (by decide), unmarkedRules, firstMatch?_cons,
    matchLength?_operatorSigns_of_head? (by decide), firstMatch?_cons, matchLength?_many]
  simp [hdigit, firstMatch?_cons, matchLength?_text, List.isPrefixOf]
  rfl

theorem settled_lexer (text : List Char) :
    lexer.settled text = text.drop (text.takeWhile (· = ' ')).length := by
  have hclass : (CharClass.char ' ').contains = fun c => decide (c = ' ') := by
    funext c
    exact Bool.eq_iff_iff.mpr (by simpa using CharClass.contains_char_iff)
  rw [settled, show lexer.ignored = [.many (one (.char ' '))] from rfl, ignoredLength_many, hclass]

theorem settled_blank (text : List Char) : lexer.settled (' ' :: text) = lexer.settled text := by
  simp [settled_lexer]

theorem cuts_token (lexeme : List Char)
    (h : firstMatch? lexer.rules (lexeme ++ rest) = some (kind, lexeme.length)) :
    lexer.Cuts (lexeme ++ rest) [⟨kind, .ofList lexeme, .start⟩] rest := by
  have hhead : ∀ c ∈ (lexeme ++ rest).head?, ¬ decide (c = ' ') := by
    intro c hc hblank
    obtain ⟨text, htext⟩ := List.head?_eq_some_iff.mp hc
    rw [htext, of_decide_eq_true hblank, firstMatch?_blank] at h
    simp at h
  have hsettled : lexer.settled (lexeme ++ rest) = lexeme ++ rest := by
    have hnone := takeWhile_append_of_head? (List.forall_mem_nil _) hhead
    rw [List.nil_append] at hnone
    rw [settled_lexer, hnone, List.length_nil, List.drop_zero]
  have hcuts := Cuts.cons (hsettled ▸ h) (.nil _)
  rwa [hsettled, List.take_left, List.drop_left] at hcuts

-- Tokens may stand after a blank.
theorem cuts_blank (h : lexer.Cuts body tokens rest) (hne : tokens ≠ []) :
    lexer.Cuts (' ' :: body) tokens rest := by
  cases h with
  | nil => exact absurd rfl hne
  | cons hfirst hcuts =>
      rw [← settled_blank] at hfirst hcuts ⊢
      exact .cons hfirst hcuts

theorem cuts_rightParen (h : lexer.settled rest = []) (more : List Char) :
    lexer.Cuts (rest ++ ')' :: more) [⟨.rightParen, ")", .start⟩] more := by
  induction rest with
  | nil => exact cuts_token [')'] (firstMatch?_rightParen more)
  | cons c rest ih =>
      by_cases hc : c = ' '
      · subst hc
        rw [settled_blank] at h
        exact cuts_blank (ih h) (by simp)
      · simp [settled_lexer, hc] at h

-- A closing parenthesis ends the token before it.
theorem endsBefore_rightParen : lexer.EndsBefore ')' := by
  have htext (sign : String) (hsign : sign ≠ "" ∧ ')' ∉ sign.toList.tail) :
      (Pattern.text sign).EndsBefore ')' :=
    endsBefore_choice (List.cons_ne_nil sign []) (by simpa using hsign)
  have hword : ¬ wordClass.contains ')' := by decide
  have hdigit : ¬ digitClass.contains ')' := by decide
  refine ⟨?_, fun before after => ?_⟩
  · simp only [rules_lexer, unmarkedRules, List.forall_mem_cons, List.not_mem_nil, false_implies,
      implies_true, and_true]
    exact ⟨htext "(" (by decide), htext ")" (by decide), endsBefore_seq_many hword,
      endsBefore_seq_many hword, endsBefore_operatorSigns (by decide), endsBefore_many hdigit,
      htext "r" (by decide)⟩
  · rw [show lexer.ignored = [.many (one (.char ' '))] from rfl, ignoredLength_many, ignoredLength_many,
      takeWhile_append_cons (by decide)]

-- What a token makes of a reader that accepts it.
inductive Accepts (reader : Infix) (token : Token Kind) : Infix → Prop
  | openGroup : token.kind = .leftParen → Accepts reader token ⟨reader.work.openGroup, false⟩
  | closeGroup {work : Stacks} : token.kind = .rightParen → reader.work.closeGroup? = some work →
      Accepts reader token ⟨work, true⟩
  | binary {op : BinaryOp} {work : Stacks} : token.kind = .operator → reader.afterOperand = true →
      BinaryOp.ofSymbol? token.lexeme = some op → reader.work.pushBinary? op = some work →
      Accepts reader token ⟨work, false⟩
  | unary {op : UnaryOp} : token.kind = .operator → reader.afterOperand = false →
      UnaryOp.ofSymbol? token.lexeme = some op → Accepts reader token ⟨reader.work.pushUnary op, false⟩
  | literal {value : Value} : token.kind = .literal → Value.ofDigits? token.lexeme.toList = some value →
      Accepts reader token (reader.operand (.literal value))
  | var : token.kind = .var → Accepts reader token (reader.operand (.var token.lexeme))
  | const : token.kind = .const → Accepts reader token (reader.operand (.const token.lexeme))

theorem accepts_of_step {reader next : Infix} {token : Token Kind} (h : reader.step token = .ok next) :
    Accepts reader token next := by
  unfold Infix.step at h
  split at h
  · rename_i hkind
    exact Except.ok.inj h ▸ .openGroup hkind
  · rename_i hkind
    obtain ⟨work, hclose, rfl⟩ := map_eq_ok_iff.mp h
    exact .closeGroup hkind (wellFormed_eq_ok_iff.mp hclose)
  · rename_i hkind
    split at h
    · rename_i hafter
      obtain ⟨op, hop, hpush⟩ := Option.bind_eq_some_iff.mp (wellFormed_eq_ok_iff.mp h)
      obtain ⟨work, hwork, hnext⟩ := Option.bind_eq_some_iff.mp hpush
      exact Option.some.inj hnext ▸ .binary hkind hafter hop hwork
    · rename_i hafter
      obtain ⟨op, hop, hnext⟩ := Option.bind_eq_some_iff.mp (wellFormed_eq_ok_iff.mp h)
      exact Option.some.inj hnext ▸ .unary hkind (by simpa using hafter) hop
  · rename_i hkind
    split at h
    · rename_i value hvalue
      exact Except.ok.inj h ▸ .literal hkind hvalue
    · simp at h
  · rename_i hkind
    exact Except.ok.inj h ▸ .var hkind
  · rename_i hkind
    exact Except.ok.inj h ▸ .const hkind
  · simp at h

theorem step_eq_ok_iff {reader next : Infix} {token : Token Kind} :
    reader.step token = .ok next ↔ Accepts reader token next := by
  refine ⟨accepts_of_step, fun h => ?_⟩
  cases h with
  | openGroup hkind => simp [Infix.step, hkind]
  | closeGroup hkind hclose => simp [Infix.step, hkind, hclose, Infix.wellFormed, Except.map]
  | binary hkind hafter hop hpush => simp [Infix.step, hkind, hafter, hop, hpush, Infix.wellFormed]
  | unary hkind hafter hop => simp [Infix.step, hkind, hafter, hop, Infix.wellFormed]
  | literal hkind hvalue => simp [Infix.step, hkind, hvalue]
  | var hkind | const hkind => simp [Infix.step, hkind]

-- Readers do not see where a token stands.
theorem ofInfix_unplaced (tokens : List (Token Kind)) :
    ofInfix (tokens.map Token.unplaced) = ofInfix tokens := by
  rw [ofInfix, List.foldlM_map]
  rfl

theorem groupLength?_unplaced (depth : Nat) (tokens : List (Token Kind)) :
    groupLength? depth (tokens.map Token.unplaced) = groupLength? depth tokens := by
  induction tokens generalizing depth with
  | nil => rfl
  | cons token tokens ih => simp only [List.map_cons, groupLength?, Token.kind_unplaced, ih]

theorem atomLength?_unplaced (tokens : List (Token Kind)) :
    atomLength? (tokens.map Token.unplaced) = atomLength? tokens := by
  induction tokens with
  | nil => rfl
  | cons token tokens ih =>
      simp only [List.map_cons, atomLength?, Token.kind_unplaced, ih, groupLength?_unplaced]

theorem ofTokens_unplaced (tokens : List (Token Kind)) :
    ofTokens (tokens.map Token.unplaced) = ofTokens tokens := by
  cases tokens with
  | nil => rfl
  | cons token tokens =>
      have hinfix := ofInfix_unplaced (token :: tokens)
      rw [List.map_cons] at hinfix ⊢
      simp only [ofTokens, Token.kind_unplaced, hinfix, ofBounds, atomLength?_unplaced, ← List.map_drop,
        ← List.map_take, ofInfix_unplaced, List.length_map]

theorem ofBounds_eq_ok_iff : ofBounds tokens = .ok expr ↔ ∃ count first second,
    atomLength? tokens = some count ∧ atomLength? (tokens.drop count) = some (tokens.drop count).length ∧
      ofInfix (tokens.take count) = .ok first ∧ ofInfix (tokens.drop count) = .ok second ∧
        .random first second = expr := by
  constructor
  · intro h
    obtain ⟨count, hcount, h⟩ := bind_eq_ok_iff.mp h
    dsimp only at h
    split at h
    · obtain ⟨_, hthrow, _⟩ := bind_eq_ok_iff.mp h
      simp [throw, throwThe, MonadExceptOf.throw] at hthrow
    · rename_i hatom
      obtain ⟨first, hfirst, h⟩ := bind_eq_ok_iff.mp h
      obtain ⟨second, hsecond, h⟩ := bind_eq_ok_iff.mp h
      exact ⟨count, first, second, wellFormed_eq_ok_iff.mp hcount, not_not.mp hatom, hfirst, hsecond,
        Except.ok.inj h⟩
  · rintro ⟨count, first, second, hcount, hatom, hfirst, hsecond, rfl⟩
    refine bind_eq_ok_iff.mpr ⟨count, wellFormed_eq_ok_iff.mpr hcount, ?_⟩
    dsimp only
    rw [if_neg (not_not.mpr hatom), hfirst, hsecond]
    rfl

theorem ofBody_of_cuts (h : lexer.Cuts body tokens rest) (hrest : lexer.settled rest = []) :
    ofBody body = ofTokens tokens := by
  obtain ⟨placed, hplaced, rfl⟩ := exists_tokens_of_cuts rfl h hrest
  rw [ofBody, hplaced, ofTokens_unplaced]

theorem exists_cuts_of_ofBody (h : ofBody body = .ok expr) : ∃ tokens rest,
    lexer.Cuts body tokens rest ∧ lexer.settled rest = [] ∧ ofTokens tokens = .ok expr := by
  unfold ofBody at h
  split at h
  · rename_i placed hplaced
    obtain ⟨rest, hcuts, hrest⟩ := cuts_of_tokens rfl hplaced
    exact ⟨_, rest, hcuts, hrest, by rw [ofTokens_unplaced, h]⟩
  · simp at h

end Handheld.Expr

namespace Handheld.Expression

variable {expression : Expression} {text : String}

theorem body?_brackets (body : String) : body? ("[" ++ body ++ "]").toList = some body.toList := by
  simp [body?]

theorem read_eq_ok_iff : read text = .ok expression ↔ ∃ body,
    body? text.toList = some body ∧ Expr.ofBody body = .ok expression.root ∧ text = expression.text := by
  obtain ⟨quoted, root⟩ := expression
  unfold read readFault
  cases body? text.toList with
  | none => simp
  | some body => cases hbody : Expr.ofBody body <;> simp [hbody, and_comm]

theorem read_brackets_eq_ok_iff {body : String} : read ("[" ++ body ++ "]") = .ok expression ↔
    Expr.ofBody body.toList = .ok expression.root ∧ "[" ++ body ++ "]" = expression.text := by
  rw [read_eq_ok_iff, body?_brackets]
  simp

end Handheld.Expression
