import Handheld.Expr.Reader
import Handheld.Proofs.Data.Except

namespace Handheld.Expr

-- The binary operators of each level, those that bind loosest on level 1.
def operatorsOf : (level : Nat) → List BinaryOp
  | 1 => [.and, .or]
  | 2 => [.eq, .ne, .lt, .gt, .le, .ge]
  | 3 => [.add, .sub]
  | 4 => [.mul, .div, .mod]
  | _ => []

-- The level of what no binary operator takes apart.
def tightest : Nat := 5

-- The tokens of an expression and its tree, level by level: binary operators group from the left, prefix
-- operators from the right.
inductive Phrase : (level : Nat) → List (Token Kind) → Expr → Prop
  | binary {level : Nat} {left right : List (Token Kind)} {sign : Token Kind} {op : BinaryOp}
      {first second : Expr} : op ∈ operatorsOf level → Phrase level left first →
      sign.kind = .operator → sign.lexeme = op.symbol → Phrase (level + 1) right second →
      Phrase level (left ++ sign :: right) (.binary op first second)
  | tighter {level : Nat} {tokens : List (Token Kind)} {expr : Expr} : level < tightest →
      Phrase (level + 1) tokens expr → Phrase level tokens expr
  | unary {tokens : List (Token Kind)} {sign : Token Kind} {op : UnaryOp} {operand : Expr} :
      sign.kind = .operator → sign.lexeme = op.symbol → Phrase tightest tokens operand →
      Phrase tightest (sign :: tokens) (.unary op operand)
  | literal {token : Token Kind} {number : Nat} : token.kind = .literal →
      Text.decimal? token.lexeme.toList = some number → (number : Int) ≤ Int64.maxValue.toInt →
      Phrase tightest [token] (.literal (Int64.ofInt number))
  | var {token : Token Kind} : token.kind = .var → Phrase tightest [token] (.var token.lexeme)
  | const {token : Token Kind} : token.kind = .const →
      Phrase tightest [token] (.const token.lexeme)
  | group {tokens : List (Token Kind)} {opening closing : Token Kind} {expr : Expr} :
      opening.kind = .leftParen → Phrase 1 tokens expr → closing.kind = .rightParen →
      Phrase tightest (opening :: tokens ++ [closing]) expr

theorem precedence_of_mem_operatorsOf :
    ∀ level, ∀ op ∈ operatorsOf level, op.precedence = level
  | 0 => by simp [operatorsOf]
  | 1 | 2 | 3 | 4 => by decide
  | level + 5 => by simp [operatorsOf]

namespace Stacks

-- An operator of a level or a tighter one.
def isAtLeast (level : Nat) : Pending → Bool
  | .binary op => level ≤ op.precedence
  | _ => false

-- What may lie below a phrase of a level: no operator that takes a part of it for its own operand.
def Open (level : Nat) : List Pending → Prop
  | [] => True
  | .group _ :: _ => True
  | .unary _ :: _ => False
  | .binary op :: _ => op.precedence < level

theorem Open.mono {level level' : Nat} {pending : List Pending} (h : Open level pending)
    (hle : level ≤ level') : Open level' pending := by
  cases pending with
  | nil => trivial
  | cons top rest =>
      cases top with
      | group => trivial
      | unary => exact h
      | binary op => exact Nat.lt_of_lt_of_le h hle

theorem pushOperand_of_open {level : Nat} {pending : List Pending} (h : Open level pending)
    (operands : List Expr) (expr : Expr) :
    pushOperand operands pending expr = ⟨expr :: operands, pending⟩ := by
  cases pending with
  | nil => rfl
  | cons top rest =>
      cases top with
      | unary => exact h.elim
      | group | binary => rfl

theorem applyWhile?_of_false {goOn : Pending → Bool} {work : Stacks}
    (h : ∀ top ∈ work.pending.head?, goOn top = false) : work.applyWhile? goOn = some work := by
  unfold applyWhile?
  split
  · rfl
  · rename_i top rest hpending
    simp [h top (by simp [hpending])]

theorem applyWhile?_of_applyLast? {goOn : Pending → Bool} {work next : Stacks} {top : Pending}
    {rest : List Pending} (hpending : work.pending = top :: rest) (hgoOn : goOn top)
    (h : work.applyLast? = some next) : work.applyWhile? goOn = next.applyWhile? goOn := by
  rw [applyWhile?.eq_def]
  simp only [hpending, hgoOn, if_true]
  split
  · rename_i hnone
    simp [h] at hnone
  · rename_i next' hsome
    rw [Option.some.inj (h.symm.trans hsome)]

theorem isAtLeast_mono {level : Nat} {top : Pending} (h : isAtLeast (level + 1) top) :
    isAtLeast level top := by
  cases top with
  | group | unary => exact h
  | binary op =>
      simp only [isAtLeast, decide_eq_true_eq] at h ⊢
      omega

theorem applyWhile?_of_open {level : Nat} {work : Stacks} (h : Open level work.pending) :
    work.applyWhile? (isAtLeast level) = some work := by
  refine applyWhile?_of_false fun top htop => ?_
  obtain ⟨rest, hpending⟩ := List.head?_eq_some_iff.mp htop
  rw [hpending] at h
  cases top with
  | group | unary => rfl
  | binary op => simpa [isAtLeast, Open] using h

-- Applying operators of one kind and then those of a wider kind applies those of the wider kind.
theorem applyWhile?_trans {goOn wider : Pending → Bool} (hwider : ∀ top, goOn top → wider top)
    {work next : Stacks} (h : work.applyWhile? goOn = some next) :
    work.applyWhile? wider = next.applyWhile? wider := by
  fun_induction work.applyWhile? goOn with
  | case1 work hpending => rw [Option.some.inj h]
  | case2 work top rest hpending hgoOn hlast => simp at h
  | case3 work top rest hpending hgoOn middle hlast ih =>
      rw [← ih h]
      exact applyWhile?_of_applyLast? hpending (hwider top hgoOn) hlast
  | case4 work top rest hpending hgoOn => rw [Option.some.inj h]

end Stacks

open Stacks

theorem wellFormed_eq_ok_iff {α : Type} {result : Option α} {a : α} :
    Infix.wellFormed result = .ok a ↔ result = some a := by
  cases result <;> simp [Infix.wellFormed]

-- The reader after the tokens of a phrase. A phrase of the tightest level takes the prefix operators
-- before it; the operators of any other phrase may still wait, and what they are waiting to make is its
-- tree.
structure Reads (level : Nat) (tokens : List (Token Kind)) (expr : Expr) : Prop where
  tight (operands : List Expr) (pending : List Pending) : level = tightest →
    tokens.foldlM Infix.step ⟨⟨operands, pending⟩, false⟩ =
      .ok ⟨pushOperand operands pending expr, true⟩
  loose (operands : List Expr) (pending : List Pending) : Open level pending →
    ∃ work, tokens.foldlM Infix.step ⟨⟨operands, pending⟩, false⟩ = .ok ⟨work, true⟩ ∧
      work.applyWhile? (isAtLeast level) = some ⟨expr :: operands, pending⟩

theorem Reads.of_tight {tokens : List (Token Kind)} {expr : Expr}
    (h : ∀ operands pending, tokens.foldlM Infix.step ⟨⟨operands, pending⟩, false⟩ =
      .ok ⟨pushOperand operands pending expr, true⟩) : Reads tightest tokens expr := by
  refine ⟨fun operands pending _ => h operands pending, fun operands pending hopen => ?_⟩
  refine ⟨_, h operands pending, ?_⟩
  rw [pushOperand_of_open hopen]
  exact applyWhile?_of_open hopen

theorem Reads.tighter {level : Nat} {tokens : List (Token Kind)} {expr : Expr}
    (hlevel : level < tightest) (h : Reads (level + 1) tokens expr) : Reads level tokens expr := by
  refine ⟨fun _ _ heq => absurd heq (Nat.ne_of_lt hlevel), fun operands pending hopen => ?_⟩
  obtain ⟨work, hfold, hwork⟩ := h.loose operands pending (hopen.mono (Nat.le_succ level))
  refine ⟨work, hfold, ?_⟩
  rw [applyWhile?_trans (fun _ => isAtLeast_mono) hwork]
  exact applyWhile?_of_open hopen

-- The operator closes what stands to its left, and waits for what comes to its right.
theorem Reads.binary {level : Nat} {left right : List (Token Kind)} {sign : Token Kind} {op : BinaryOp}
    {first second : Expr} (hop : op.precedence = level) (hlevel : level ≠ tightest)
    (hleft : Reads level left first) (hkind : sign.kind = .operator) (hsign : sign.lexeme = op.symbol)
    (hright : Reads (level + 1) right second) :
    Reads level (left ++ sign :: right) (.binary op first second) := by
  refine ⟨fun _ _ heq => absurd heq hlevel, fun operands pending hopen => ?_⟩
  obtain ⟨work, hfold, hwork⟩ := hleft.loose operands pending hopen
  have hbinds : bindsAsTight op = isAtLeast level := by
    funext top
    cases top <;> simp [bindsAsTight, isAtLeast, hop]
  have hstep : Infix.step ⟨work, true⟩ sign =
      .ok ⟨⟨first :: operands, .binary op :: pending⟩, false⟩ := by
    simp [Infix.step, hkind, hsign, BinaryOp.ofSymbol?_symbol, pushBinary?, hbinds, hwork,
      Infix.wellFormed]
  have habove : Open (level + 1) (.binary op :: pending) := by
    simp [Open, hop]
  obtain ⟨work', hfold', hwork'⟩ := hright.loose (first :: operands) (.binary op :: pending) habove
  refine ⟨work', ?_, ?_⟩
  · rw [List.foldlM_append, hfold]
    refine bind_eq_ok_iff.mpr ⟨_, rfl, ?_⟩
    rw [List.foldlM_cons]
    exact bind_eq_ok_iff.mpr ⟨_, hstep, hfold'⟩
  · have hlast : applyLast? ⟨second :: first :: operands, .binary op :: pending⟩ =
        some ⟨.binary op first second :: operands, pending⟩ := by
      simp [applyLast?, pushOperand_of_open hopen]
    rw [applyWhile?_trans (fun _ => isAtLeast_mono) hwork',
      applyWhile?_of_applyLast? rfl (by simp [isAtLeast, hop]) hlast]
    exact applyWhile?_of_open hopen

theorem Reads.unary {tokens : List (Token Kind)} {sign : Token Kind} {op : UnaryOp} {operand : Expr}
    (hkind : sign.kind = .operator) (hsign : sign.lexeme = op.symbol)
    (h : Reads tightest tokens operand) : Reads tightest (sign :: tokens) (.unary op operand) := by
  refine .of_tight fun operands pending => ?_
  have hstep : Infix.step ⟨⟨operands, pending⟩, false⟩ sign =
      .ok ⟨⟨operands, .unary op :: pending⟩, false⟩ := by
    simp [Infix.step, hkind, hsign, UnaryOp.ofSymbol?_symbol, pushUnary, Infix.wellFormed]
  rw [List.foldlM_cons]
  exact bind_eq_ok_iff.mpr ⟨_, hstep, h.tight operands (.unary op :: pending) rfl⟩

theorem Reads.atom {token : Token Kind} {expr : Expr}
    (h : ∀ reader : Infix, reader.step token = .ok (reader.operand expr)) :
    Reads tightest [token] expr := by
  refine .of_tight fun operands pending => ?_
  rw [List.foldlM_cons]
  exact bind_eq_ok_iff.mpr ⟨_, h _, rfl⟩

theorem Reads.literal {token : Token Kind} {number : Nat} (hkind : token.kind = .literal)
    (hnumber : Text.decimal? token.lexeme.toList = some number)
    (hle : (number : Int) ≤ Int64.maxValue.toInt) :
    Reads tightest [token] (.literal (Int64.ofInt number)) := by
  refine .atom fun reader => ?_
  have hvalue : Value.ofDigits? token.lexeme.toList = some (Int64.ofInt number) := by
    simp [Value.ofDigits?, hnumber, Value.ofInt?, hle]
  simp [Infix.step, hkind, hvalue]

-- A group is read like a whole expression, on top of what waits outside of it.
theorem Reads.group {tokens : List (Token Kind)} {opening closing : Token Kind} {expr : Expr}
    (hopening : opening.kind = .leftParen) (h : Reads 1 tokens expr)
    (hclosing : closing.kind = .rightParen) :
    Reads tightest (opening :: tokens ++ [closing]) expr := by
  refine .of_tight fun operands pending => ?_
  obtain ⟨work, hfold, hwork⟩ := h.loose operands (.group operands.length :: pending) trivial
  have hopen : Infix.step ⟨⟨operands, pending⟩, false⟩ opening =
      .ok ⟨⟨operands, .group operands.length :: pending⟩, false⟩ := by
    simp [Infix.step, hopening, openGroup]
  have hinside : work.applyWhile? (!isGroup ·) =
      some ⟨expr :: operands, .group operands.length :: pending⟩ := by
    have hwider (top : Pending) (htop : isAtLeast 1 top) : !isGroup top := by
      cases top <;> simp_all [isAtLeast, isGroup]
    rw [applyWhile?_trans hwider hwork]
    exact applyWhile?_of_false (by simp [isGroup])
  have hclose : Infix.step ⟨work, true⟩ closing = .ok ⟨pushOperand operands pending expr, true⟩ := by
    simp [Infix.step, hclosing, closeGroup?, hinside, Infix.wellFormed, Except.map]
  rw [List.cons_append, List.foldlM_cons]
  refine bind_eq_ok_iff.mpr ⟨_, hopen, ?_⟩
  rw [List.foldlM_append]
  refine bind_eq_ok_iff.mpr ⟨_, hfold, ?_⟩
  rw [List.foldlM_cons]
  exact bind_eq_ok_iff.mpr ⟨_, hclose, rfl⟩

theorem Phrase.reads {level : Nat} {tokens : List (Token Kind)} {expr : Expr}
    (h : Phrase level tokens expr) : Reads level tokens expr := by
  induction h with
  | @binary level left right sign op first second hop _ hkind hsign _ ihleft ihright =>
      have hlevel : level ≠ tightest := by
        rintro rfl
        simp [tightest, operatorsOf] at hop
      exact .binary (precedence_of_mem_operatorsOf level op hop) hlevel ihleft hkind hsign ihright
  | tighter hlevel _ ih => exact ih.tighter hlevel
  | unary hkind hsign _ ih => exact ih.unary hkind hsign
  | literal hkind hnumber hle => exact .literal hkind hnumber hle
  | var hkind => exact .atom fun reader => by simp [Infix.step, hkind]
  | const hkind => exact .atom fun reader => by simp [Infix.step, hkind]
  | group hopening _ hclosing ih => exact .group hopening ih hclosing

-- The reader finds the tree of every well-formed expression.
theorem ofInfix_of_phrase {tokens : List (Token Kind)} {expr : Expr} (h : Phrase 1 tokens expr) :
    ofInfix tokens = .ok expr := by
  obtain ⟨work, hfold, hwork⟩ := h.reads.loose [] [] trivial
  have hfinish : work.finish? = some expr := by
    have hwider (top : Pending) (htop : isAtLeast 1 top) : isBinary top := by
      cases top <;> simp_all [isAtLeast, isBinary]
    have hdone : work.applyWhile? isBinary = some ⟨[expr], []⟩ := by
      rw [applyWhile?_trans hwider hwork]
      exact applyWhile?_of_false (by simp)
    simp [finish?, hdone]
  exact bind_eq_ok_iff.mpr ⟨_, hfold, wellFormed_eq_ok_iff.mpr hfinish⟩

def number (digits : String) : Token Kind := ⟨.literal, digits, .start⟩

def sign (symbol : String) : Token Kind := ⟨.operator, symbol, .start⟩

-- 1 - 2 - ~3 * 4
def chain : List (Token Kind) :=
  [number "1", sign "-", number "2", sign "-", sign "~", number "3", sign "*", number "4"]

def chainTree : Expr :=
  .binary .sub (.binary .sub (.literal 1) (.literal 2))
    (.binary .mul (.unary .not (.literal 3)) (.literal 4))

theorem phrase_chain : Phrase 1 chain chainTree := by
  have hone : Phrase 5 [number "1"] (.literal 1) := .literal rfl rfl (by decide)
  have htwo : Phrase 5 [number "2"] (.literal 2) := .literal rfl rfl (by decide)
  have hthree : Phrase 5 [number "3"] (.literal 3) := .literal rfl rfl (by decide)
  have hfour : Phrase 5 [number "4"] (.literal 4) := .literal rfl rfl (by decide)
  have hnot : Phrase 5 [sign "~", number "3"] (.unary .not (.literal 3)) := .unary rfl rfl hthree
  have hproduct : Phrase 4 ([sign "~", number "3"] ++ sign "*" :: [number "4"])
      (.binary .mul (.unary .not (.literal 3)) (.literal 4)) :=
    .binary (by decide) (.tighter (by decide) hnot) rfl rfl hfour
  have hleft : Phrase 3 ([number "1"] ++ sign "-" :: [number "2"])
      (.binary .sub (.literal 1) (.literal 2)) :=
    .binary (by decide) (.tighter (by decide) (.tighter (by decide) hone)) rfl rfl
      (.tighter (by decide) htwo)
  have hall : Phrase 3 chain chainTree := .binary (by decide) hleft rfl rfl hproduct
  exact .tighter (by decide) (.tighter (by decide) hall)

theorem ofInfix_of_phrase_chain : Phrase 1 chain chainTree ∧ ofInfix chain = .ok chainTree :=
  ⟨phrase_chain, ofInfix_of_phrase phrase_chain⟩

end Handheld.Expr
