import Handheld.Proofs.Expr.Evaluation
import Handheld.Proofs.Expr.Rendering

namespace Handheld.Expr

variable {expr first second : Expr} {tokens rest : List (Token Kind)} {opening closing token : Token Kind}

namespace Stacks

variable {work next outer : Stacks} {goOn : Pending → Bool}

-- What waits when there are so many operands below all others.
def lift (count : Nat) : Pending → Pending
  | .group depth => .group (depth + count)
  | .unary op => .unary op
  | .binary op => .binary op

-- The stacks with those below them that a group was opened on.
def above (work outer : Stacks) : Stacks :=
  ⟨work.operands ++ outer.operands,
    work.pending.map (lift outer.operands.length) ++ .group outer.operands.length :: outer.pending⟩

theorem pushOperand_above (outer : Stacks) (operands : List Expr) (pending : List Pending) (expr : Expr) :
    pushOperand (above ⟨operands, pending⟩ outer).operands (above ⟨operands, pending⟩ outer).pending expr =
      (pushOperand operands pending expr).above outer := by
  induction pending generalizing expr with
  | nil => rfl
  | cons top pending ih =>
      cases top with
      | group | binary => rfl
      | unary op => exact ih (.unary op expr)

theorem applyLast?_above (h : work.applyLast? = some next) :
    (work.above outer).applyLast? = some (next.above outer) := by
  obtain ⟨operands, pending⟩ := work
  unfold applyLast? at h
  split at h
  · rename_i op below right left others hpending hoperands
    obtain rfl := hpending
    obtain rfl := hoperands
    obtain rfl := Option.some.inj h
    rw [← pushOperand_above]
    rfl
  · simp at h

theorem goOn_lift (hgoOn : ∀ depth, goOn (.group depth) = false) (count : Nat) (top : Pending) :
    goOn (lift count top) = goOn top := by
  cases top with
  | group depth => rw [lift, hgoOn, hgoOn]
  | unary | binary => rfl

-- Operators are applied as far as the group has been opened, and no further.
theorem applyWhile?_above (hgoOn : ∀ depth, goOn (.group depth) = false)
    (h : work.applyWhile? goOn = some next) :
    (work.above outer).applyWhile? goOn = some (next.above outer) := by
  fun_induction work.applyWhile? goOn with
  | case1 work hpending =>
      obtain rfl := Option.some.inj h
      exact applyWhile?_of_false (by simp [above, hpending, hgoOn])
  | case2 work top rest hpending htop hlast => simp at h
  | case3 work top rest hpending htop middle hlast ih =>
      have hpending' : (work.above outer).pending = lift outer.operands.length top ::
          (rest.map (lift outer.operands.length) ++ .group outer.operands.length :: outer.pending) := by
        rw [above, hpending]
        rfl
      rw [applyWhile?_of_applyLast? hpending' (by rw [goOn_lift hgoOn, htop]) (applyLast?_above hlast)]
      exact ih h
  | case4 work top rest hpending htop =>
      obtain rfl := Option.some.inj h
      exact applyWhile?_of_false (by simp [above, hpending, goOn_lift hgoOn, htop])

theorem closeGroup?_above (h : work.closeGroup? = some next) :
    (work.above outer).closeGroup? = some (next.above outer) := by
  obtain ⟨middle, hmiddle, hnext⟩ := Option.bind_eq_some_iff.mp h
  have habove : (work.above outer).applyWhile? (!isGroup ·) = some (middle.above outer) :=
    applyWhile?_above (by simp [isGroup]) hmiddle
  obtain ⟨operands, pending⟩ := middle
  split at hnext
  · rename_i depth below operand others hpending hoperands
    obtain rfl := hpending
    obtain rfl := hoperands
    split at hnext
    · rename_i hdepth
      obtain rfl := Option.some.inj hnext
      rw [← pushOperand_above, closeGroup?, habove]
      simp [above, lift, hdepth]
    · simp at hnext
  · simp at hnext

theorem pushBinary?_above {op : BinaryOp} (h : work.pushBinary? op = some next) :
    (work.above outer).pushBinary? op = some (next.above outer) := by
  obtain ⟨middle, hmiddle, hnext⟩ := Option.bind_eq_some_iff.mp h
  obtain rfl := Option.some.inj hnext
  rw [pushBinary?, applyWhile?_above (fun _ => rfl) hmiddle]
  rfl

theorem openGroup_above (work outer : Stacks) :
    (work.above outer).openGroup = work.openGroup.above outer := by
  simp [openGroup, above, lift]

-- A group ends where its tokens alone would be a whole expression.
theorem closeGroup?_of_finish? (h : work.finish? = some expr) (outer : Stacks) :
    (work.above outer).closeGroup? = some (pushOperand outer.operands outer.pending expr) := by
  obtain ⟨middle, hmiddle, hwhole⟩ := Option.bind_eq_some_iff.mp h
  have hbinary : (work.above outer).applyWhile? isBinary = some (middle.above outer) :=
    applyWhile?_above (fun _ => rfl) hmiddle
  obtain ⟨operands, pending⟩ := middle
  split at hwhole
  · rename_i operand hpending hoperands
    obtain rfl := hpending
    obtain rfl := hoperands
    obtain rfl := Option.some.inj hwhole
    have hall : (work.above outer).applyWhile? (!isGroup ·) = some (above ⟨[operand], []⟩ outer) := by
      have hwider (top : Pending) (htop : isBinary top) : !isGroup top := by
        cases top <;> simp_all [isBinary, isGroup]
      rw [applyWhile?_trans hwider hbinary]
      exact applyWhile?_of_false (by simp [above, isGroup])
    rw [closeGroup?, hall]
    simp [above]
  · simp at hwhole

end Stacks

open Stacks

def Infix.above (reader : Infix) (outer : Stacks) : Infix := ⟨reader.work.above outer, reader.afterOperand⟩

-- What a reader does with a token inside of a group it does whatever the group was opened on.
theorem step_above {reader next : Infix} (outer : Stacks) (h : reader.step token = .ok next) :
    (reader.above outer).step token = .ok (next.above outer) := by
  have hoperand (operand : Expr) :
      (reader.operand operand).above outer = (reader.above outer).operand operand := by
    rw [Infix.above, Infix.operand, ← pushOperand_above]
    rfl
  refine step_eq_ok_iff.mpr ?_
  cases step_eq_ok_iff.mp h with
  | openGroup hkind =>
      have hopen : Accepts (reader.above outer) token ⟨(reader.work.above outer).openGroup, false⟩ :=
        .openGroup hkind
      rwa [openGroup_above] at hopen
  | closeGroup hkind hclose => exact .closeGroup hkind (closeGroup?_above hclose)
  | binary hkind hafter hop hpush => exact .binary hkind hafter hop (pushBinary?_above hpush)
  | unary hkind hafter hop => exact .unary hkind hafter hop
  | literal hkind hvalue => exact hoperand _ ▸ .literal hkind hvalue
  | var hkind => exact hoperand _ ▸ .var hkind
  | const hkind => exact hoperand _ ▸ .const hkind

theorem foldlM_above {reader last : Infix} (outer : Stacks)
    (h : tokens.foldlM Infix.step reader = .ok last) :
    tokens.foldlM Infix.step (reader.above outer) = .ok (last.above outer) := by
  induction tokens generalizing reader with
  | nil =>
      obtain rfl : reader = last := by simpa [pure, Except.pure] using h
      rfl
  | cons token tokens ih =>
      rw [List.foldlM_cons] at h ⊢
      obtain ⟨next, hnext, h⟩ := bind_eq_ok_iff.mp h
      exact bind_eq_ok_iff.mpr ⟨_, step_above outer hnext, ih h⟩

-- In parentheses an accepted expression is one operand, wherever the group stands.
theorem foldlM_group (h : ofInfix tokens = .ok expr) (hopening : opening.kind = .leftParen)
    (hclosing : closing.kind = .rightParen) (reader : Infix) :
    (opening :: tokens ++ [closing]).foldlM Infix.step reader = .ok (reader.operand expr) := by
  obtain ⟨last, hfold, hfinish⟩ := bind_eq_ok_iff.mp h
  have hopen : reader.step opening = .ok (Infix.start.above reader.work) := by
    simp [Infix.step, hopening, Infix.above, Infix.start, above, empty, openGroup]
  have hclose : (last.above reader.work).step closing = .ok (reader.operand expr) := by
    have hgroup := closeGroup?_of_finish? (wellFormed_eq_ok_iff.mp hfinish) reader.work
    simp [Infix.step, hclosing, Infix.above, hgroup, Infix.wellFormed, Except.map, Infix.operand]
  rw [List.cons_append, List.foldlM_cons]
  refine bind_eq_ok_iff.mpr ⟨_, hopen, ?_⟩
  rw [List.foldlM_append]
  refine bind_eq_ok_iff.mpr ⟨_, foldlM_above reader.work hfold, ?_⟩
  rw [List.foldlM_cons]
  exact bind_eq_ok_iff.mpr ⟨_, hclose, rfl⟩

theorem ofInfix_group (h : ofInfix tokens = .ok expr) (hopening : opening.kind = .leftParen)
    (hclosing : closing.kind = .rightParen) : ofInfix (opening :: tokens ++ [closing]) = .ok expr := by
  refine bind_eq_ok_iff.mpr ⟨_, foldlM_group h hopening hclosing .start, ?_⟩
  simp [Infix.wellFormed, finish?, Infix.operand, Infix.start, empty, pushOperand, applyWhile?]

namespace Stacks

variable {work next : Stacks} {goOn : Pending → Bool}

def openGroups (work : Stacks) : Nat := work.pending.countP isGroup

theorem openGroups_pushOperand (operands : List Expr) (pending : List Pending) (expr : Expr) :
    (pushOperand operands pending expr).openGroups = pending.countP isGroup := by
  fun_induction pushOperand operands pending expr with
  | case1 pending operand op ih => simp [ih, isGroup]
  | case2 => rfl

theorem openGroups_openGroup (work : Stacks) : work.openGroup.openGroups = work.openGroups + 1 :=
  List.countP_cons_of_pos rfl

theorem openGroups_applyLast? (h : work.applyLast? = some next) : next.openGroups = work.openGroups := by
  unfold applyLast? at h
  split at h
  · rename_i op pending right left operands hpending _
    obtain rfl := Option.some.inj h
    rw [openGroups_pushOperand, openGroups, hpending, List.countP_cons_of_neg (by simp [isGroup])]
  · simp at h

theorem openGroups_applyWhile? (h : work.applyWhile? goOn = some next) :
    next.openGroups = work.openGroups := by
  fun_induction work.applyWhile? goOn with
  | case1 work hpending => rw [Option.some.inj h]
  | case2 work top rest hpending htop hlast => simp at h
  | case3 work top rest hpending htop middle hlast ih => rw [ih h, openGroups_applyLast? hlast]
  | case4 work top rest hpending htop => rw [Option.some.inj h]

theorem openGroups_closeGroup? (h : work.closeGroup? = some next) :
    work.openGroups = next.openGroups + 1 := by
  obtain ⟨middle, hmiddle, hnext⟩ := Option.bind_eq_some_iff.mp h
  rw [← openGroups_applyWhile? hmiddle]
  split at hnext
  · rename_i depth pending operand operands hpending _
    split at hnext
    · obtain rfl := Option.some.inj hnext
      rw [openGroups_pushOperand, openGroups, hpending, List.countP_cons_of_pos rfl]
    · simp at hnext
  · simp at hnext

theorem openGroups_of_finish? (h : work.finish? = some expr) : work.openGroups = 0 := by
  obtain ⟨middle, hmiddle, hwhole⟩ := Option.bind_eq_some_iff.mp h
  rw [← openGroups_applyWhile? hmiddle]
  split at hwhole
  · rename_i operand hpending _
    rw [openGroups, hpending, List.countP_nil]
  · simp at hwhole

end Stacks

-- The scan for the end of a group counts the groups that the reader has open inside of it.
theorem groupLength?_of_step {reader next : Infix} (h : reader.step token = .ok next)
    (rest : List (Token Kind)) : groupLength? (reader.work.openGroups + 1) (token :: rest) =
      (groupLength? (next.work.openGroups + 1) rest).map (· + 1) := by
  cases step_eq_ok_iff.mp h with
  | openGroup hkind =>
      rw [openGroups_openGroup]
      simp [groupLength?, hkind]
  | closeGroup hkind hclose => simp [groupLength?, hkind, openGroups_closeGroup? hclose]
  | binary hkind _ _ hpush =>
      obtain ⟨middle, hmiddle, hnext⟩ := Option.bind_eq_some_iff.mp hpush
      obtain rfl := Option.some.inj hnext
      have hcount := openGroups_applyWhile? hmiddle
      simp only [groupLength?, hkind, ← hcount]
      simp [openGroups, isGroup]
  | unary hkind => simp [groupLength?, hkind, openGroups, pushUnary, isGroup]
  | literal hkind | var hkind | const hkind =>
      simp only [groupLength?, hkind, Infix.operand, openGroups_pushOperand]
      rfl

theorem groupLength?_of_foldlM {reader last : Infix} (h : tokens.foldlM Infix.step reader = .ok last)
    (rest : List (Token Kind)) : groupLength? (reader.work.openGroups + 1) (tokens ++ rest) =
      (groupLength? (last.work.openGroups + 1) rest).map (· + tokens.length) := by
  induction tokens generalizing reader with
  | nil =>
      obtain rfl : reader = last := by simpa [pure, Except.pure] using h
      simp
  | cons token tokens ih =>
      rw [List.foldlM_cons] at h
      obtain ⟨next, hnext, h⟩ := bind_eq_ok_iff.mp h
      rw [List.cons_append, groupLength?_of_step hnext, ih h, Option.map_map]
      rfl

-- The scan and the reader agree on where a group ends.
theorem atomLength?_group (h : ofInfix tokens = .ok expr) (hopening : opening.kind = .leftParen)
    (hclosing : closing.kind = .rightParen) (rest : List (Token Kind)) :
    atomLength? ((opening :: tokens ++ [closing]) ++ rest) =
      some (opening :: tokens ++ [closing]).length := by
  obtain ⟨last, hfold, hfinish⟩ := bind_eq_ok_iff.mp h
  have hgroup := groupLength?_of_foldlM hfold (closing :: rest)
  have hstart : Infix.start.work.openGroups = 0 := rfl
  rw [hstart, openGroups_of_finish? (wellFormed_eq_ok_iff.mp hfinish)] at hgroup
  have hlength : groupLength? 1 (tokens ++ closing :: rest) = some (1 + tokens.length) := by
    rw [hgroup]
    simp [groupLength?, hclosing]
  simp [atomLength?, hopening, hlength, Nat.add_comm]

-- Two groups are read as the bounds of a random value.
theorem ofBounds_groups {tokens' : List (Token Kind)} {opening' closing' : Token Kind}
    (h : ofInfix tokens = .ok first) (h' : ofInfix tokens' = .ok second)
    (hopening : opening.kind = .leftParen) (hclosing : closing.kind = .rightParen)
    (hopening' : opening'.kind = .leftParen) (hclosing' : closing'.kind = .rightParen) :
    ofBounds ((opening :: tokens ++ [closing]) ++ (opening' :: tokens' ++ [closing'])) =
      .ok (.random first second) := by
  have hatom := atomLength?_group h' hopening' hclosing' []
  rw [List.append_nil] at hatom
  refine ofBounds_eq_ok_iff.mpr ⟨_, first, second, atomLength?_group h hopening hclosing _, ?_, ?_, ?_, rfl⟩
  · rw [List.drop_left, hatom]
  · rw [List.take_left, ofInfix_group h hopening hclosing]
  · rw [List.drop_left, ofInfix_group h' hopening' hclosing']

-- The tokens of a text in parentheses.
theorem cuts_group {body inside : List Char} (h : lexer.Cuts body tokens inside)
    (hinside : lexer.settled inside = []) (more : List Char) :
    lexer.Cuts ('(' :: (body ++ ')' :: more))
      (⟨.leftParen, "(", .start⟩ :: tokens ++ [⟨.rightParen, ")", .start⟩]) more :=
  (cuts_token ['('] (firstMatch?_leftParen _)).append
    ((h.append_cons endsBefore_rightParen more).append (cuts_rightParen hinside more))

theorem ofBody_group {body : List Char} (h : ofBody body = .ok expr) (hfree : expr.RandomFree) :
    ofBody ('(' :: (body ++ [')'])) = .ok expr := by
  obtain ⟨tokens, rest, hcuts, hrest, htokens⟩ := exists_cuts_of_ofBody h
  rw [ofBody_of_cuts (cuts_group hcuts hrest []) (by simp [settled_lexer])]
  exact ofInfix_group (ofInfix_of_randomFree htokens hfree) rfl rfl

-- r (body) (body')
theorem ofBody_random {body body' : List Char} (h : ofBody body = .ok first) (hfree : first.RandomFree)
    (h' : ofBody body' = .ok second) (hfree' : second.RandomFree) :
    ofBody ('r' :: ' ' :: '(' :: (body ++ ')' :: ' ' :: '(' :: (body' ++ [')']))) =
      .ok (.random first second) := by
  obtain ⟨tokens, rest, hcuts, hrest, htokens⟩ := exists_cuts_of_ofBody h
  obtain ⟨tokens', rest', hcuts', hrest', htokens'⟩ := exists_cuts_of_ofBody h'
  have hgroups := (cuts_group hcuts hrest _).append (cuts_blank (cuts_group hcuts' hrest' []) (by simp))
  have hall := (cuts_token ['r'] (firstMatch?_random _)).append (cuts_blank hgroups (by simp))
  rw [List.singleton_append] at hall
  rw [ofBody_of_cuts hall (by simp [settled_lexer])]
  exact ofBounds_groups (ofInfix_of_randomFree htokens hfree) (ofInfix_of_randomFree htokens' hfree')
    rfl rfl rfl rfl

end Handheld.Expr

namespace Handheld.Expression

open RandomSource

variable {body body' : String} {first second : Expression}

-- Expressions with the same values and the same faults, whatever text their errors quote, that also ask for
-- the same random values.
def EvaluatesLike (expression other : Expression) : Prop :=
  ∀ (ρ : Type) [RandomSource ρ] (scope : Scope) (source : ρ),
    (∃ (ended : Except ExprFault Value) (after : ρ),
      (expression.eval scope).run source = (ended.mapError (⟨·, expression.text⟩), after) ∧
        (other.eval scope).run source = (ended.mapError (⟨·, other.text⟩), after)) ∧
    ((expression.eval scope).run (Recorded.start source)).2.requests =
      ((other.eval scope).run (Recorded.start source)).2.requests

theorem evaluatesLike_of_root {expression other : Expression} (h : expression.root = other.root) :
    EvaluatesLike expression other := by
  intro ρ _ scope source
  refine ⟨⟨_, _, run_eval expression scope source, ?_⟩, ?_⟩
  · rw [run_eval, ← h]
    rfl
  · rw [run_eval, run_eval, h]
    rfl

theorem read_of_ofBody {text : String} {root : Expr} (htext : text = "[" ++ body ++ "]")
    (h : Expr.ofBody body.toList = .ok root) : read text = .ok ⟨text, root⟩ := by
  subst htext
  exact read_brackets_eq_ok_iff.mpr ⟨h, rfl⟩

-- A random value between two texts in parentheses is the one between the expressions of these texts. A
-- whole text in parentheses is the expression of the text.
theorem read_groups (hbody : read ("[" ++ body ++ "]") = .ok first)
    (hbody' : read ("[" ++ body' ++ "]") = .ok second) (hfree : first.root.RandomFree)
    (hfree' : second.root.RandomFree) :
    (∃ inline, read ("[r (" ++ body ++ ") (" ++ body' ++ ")]") = .ok inline ∧
      inline.root = (random first second).root ∧ EvaluatesLike inline (random first second)) ∧
    ∃ grouped, read ("[(" ++ body ++ ")]") = .ok grouped ∧ grouped.root = first.root := by
  obtain ⟨hfirst, _⟩ := read_brackets_eq_ok_iff.mp hbody
  obtain ⟨hsecond, _⟩ := read_brackets_eq_ok_iff.mp hbody'
  have hinline : Expr.ofBody ("r (" ++ body ++ ") (" ++ body' ++ ")").toList =
      .ok (random first second).root := by
    simpa [random] using Expr.ofBody_random hfirst hfree hsecond hfree'
  have hgrouped : Expr.ofBody ("(" ++ body ++ ")").toList = .ok first.root := by
    simpa using Expr.ofBody_group hfirst hfree
  refine ⟨⟨_, read_of_ofBody ?_ hinline, rfl, evaluatesLike_of_root rfl⟩,
    ⟨_, read_of_ofBody ?_ hgrouped, rfl⟩⟩
  · simp [← String.toList_inj]
  · simp [← String.toList_inj]

theorem read_groups_written :
    (∃ inline, read ("[r (" ++ Expr.written.text ++ ") (" ++ Expr.written.text ++ ")]") = .ok inline ∧
      inline.root = .random Expr.written Expr.written) ∧
    ∃ grouped, read ("[(" ++ Expr.written.text ++ ")]") = .ok grouped ∧ grouped.root = Expr.written := by
  have hread := Expr.plain_written.read_brackets
  have hfree : Expr.written.RandomFree := ⟨trivial, trivial, trivial⟩
  obtain ⟨⟨inline, hinline, hroot, _⟩, hgrouped⟩ := read_groups hread hread hfree hfree
  exact ⟨⟨inline, hinline, hroot⟩, hgrouped⟩

end Handheld.Expression
