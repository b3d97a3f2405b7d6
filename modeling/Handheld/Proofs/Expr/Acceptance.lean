import Handheld.Proofs.Expr.Infix
import Mathlib.Data.List.Chain

namespace Handheld.Expr

open Stacks

variable {level : Nat} {tokens read : List (Token Kind)} {expr : Expr} {work next : Stacks}

-- No operator stands at the end of the tokens or before a closing parenthesis.
structure NothingDangles (tokens : List (Token Kind)) : Prop where
  chain : tokens.IsChain fun token next => token.kind = .operator → next.kind ≠ .rightParen
  last : ∀ token ∈ tokens.getLast?, token.kind ≠ .operator

theorem nothingDangles_singleton {token : Token Kind} (h : token.kind ≠ .operator) :
    NothingDangles [token] :=
  ⟨.singleton token, by simpa using h⟩

theorem NothingDangles.append {right : List (Token Kind)} (h : NothingDangles tokens)
    (hright : NothingDangles right) : NothingDangles (tokens ++ right) := by
  refine ⟨List.isChain_append.mpr ⟨h.chain, hright.chain, fun token htoken _ _ hkind => ?_⟩, ?_⟩
  · exact absurd hkind (h.last token htoken)
  · intro token htoken
    rw [List.getLast?_append, Option.mem_def, Option.or_eq_some_iff] at htoken
    exact htoken.elim (hright.last token) fun hleft => h.last token hleft.2

theorem NothingDangles.cons {token : Token Kind} (h : NothingDangles tokens) (hne : tokens ≠ [])
    (hfirst : ∀ first ∈ tokens.head?, first.kind ≠ .rightParen) : NothingDangles (token :: tokens) := by
  refine ⟨List.isChain_cons.mpr ⟨fun first hmem _ => hfirst first hmem, h.chain⟩, ?_⟩
  rw [List.getLast?_cons_of_ne_nil hne]
  exact h.last

theorem Phrase.ne_nil (h : Phrase level tokens expr) : tokens ≠ [] := by
  induction h with
  | tighter _ _ ih => exact ih
  | _ => simp

theorem Phrase.first_ne_rightParen (h : Phrase level tokens expr) :
    ∀ first ∈ tokens.head?, first.kind ≠ .rightParen := by
  induction h with
  | @binary level left right sign op first second _ hleft _ _ _ ih _ =>
      rw [List.head?_append_of_ne_nil _ hleft.ne_nil]
      exact ih
  | tighter _ _ ih => exact ih
  | unary hkind | literal hkind | var hkind | const hkind | group hkind => simp [hkind]

theorem Phrase.nothingDangles (h : Phrase level tokens expr) : NothingDangles tokens := by
  induction h with
  | binary _ _ _ _ hright ihleft ihright =>
      exact ihleft.append (ihright.cons hright.ne_nil hright.first_ne_rightParen)
  | tighter _ _ ih => exact ih
  | unary _ _ hoperand ih => exact ih.cons hoperand.ne_nil hoperand.first_ne_rightParen
  | literal hkind | var hkind | const hkind => exact nothingDangles_singleton (by simp [hkind])
  | group _ hinner hclosing ih =>
      exact (ih.cons hinner.ne_nil hinner.first_ne_rightParen).append
        (nothingDangles_singleton (by simp [hclosing]))

theorem mem_operatorsOf_precedence (op : BinaryOp) : op ∈ operatorsOf op.precedence := by
  cases op <;> decide

theorem precedence_lt_tightest (op : BinaryOp) : op.precedence < tightest := by
  cases op <;> decide

theorem Phrase.le_tightest (h : Phrase level tokens expr) : level ≤ tightest := by
  cases h with
  | binary hop =>
      rw [← precedence_of_mem_operatorsOf _ _ hop]
      exact (precedence_lt_tightest _).le
  | tighter hlt => exact hlt.le
  | _ => exact Nat.le_refl _

theorem Phrase.loosen {looser : Nat} (h : Phrase level tokens expr) (hle : looser ≤ level) :
    Phrase looser tokens expr := by
  induction hle using Nat.decreasingInduction with
  | self => exact h
  | of_succ looser hlt ih => exact .tighter (hlt.trans_le h.le_tightest) ih

-- What has been read when an operand is due: openings of groups, prefix operators, and binary operators
-- after a phrase that they can take for their left operand.
inductive Awaits : List (Token Kind) → List Expr → List Pending → Prop
  | start : Awaits [] [] []
  | group {read : List (Token Kind)} {operands : List Expr} {pending : List Pending}
      {opening : Token Kind} : Awaits read operands pending → opening.kind = .leftParen →
      Awaits (read ++ [opening]) operands (.group operands.length :: pending)
  | unary {read : List (Token Kind)} {operands : List Expr} {pending : List Pending}
      {sign : Token Kind} {op : UnaryOp} : Awaits read operands pending → sign.kind = .operator →
      sign.lexeme = op.symbol → Awaits (read ++ [sign]) operands (.unary op :: pending)
  | binary {read left : List (Token Kind)} {operands : List Expr} {pending : List Pending}
      {sign : Token Kind} {op : BinaryOp} {first : Expr} : Awaits read operands pending →
      Open op.precedence pending → Phrase op.precedence left first → sign.kind = .operator →
      sign.lexeme = op.symbol → Awaits (read ++ left ++ [sign]) (first :: operands) (.binary op :: pending)

-- The latest operand is a phrase, and it is what has been read last.
inductive EndsWith (level : Nat) : List (Token Kind) → Stacks → Prop
  | phrase {read phrase : List (Token Kind)} {operands : List Expr} {pending : List Pending}
      {expr : Expr} : Awaits read operands pending → Open level pending → Phrase level phrase expr →
      EndsWith level (read ++ phrase) ⟨expr :: operands, pending⟩

theorem Awaits.pushOperand {operands : List Expr} {pending : List Pending}
    (h : Awaits read operands pending) (hphrase : Phrase tightest tokens expr) :
    EndsWith tightest (read ++ tokens) (pushOperand operands pending expr) := by
  induction h generalizing tokens expr with
  | start => exact .phrase .start trivial hphrase
  | group hbelow hkind => exact .phrase (.group hbelow hkind) trivial hphrase
  | unary _ hkind hsign ih =>
      rw [List.append_assoc]
      exact ih (.unary hkind hsign hphrase)
  | binary hbelow hopen hleft hkind hsign =>
      exact .phrase (.binary hbelow hopen hleft hkind hsign) (precedence_lt_tightest _) hphrase

-- Applying an operator makes one phrase out of its operands and what stands between them.
theorem EndsWith.applyLast? (h : EndsWith level read work) (hlast : work.applyLast? = some next) :
    ∃ op, .binary op ∈ work.pending.head? ∧ EndsWith op.precedence read next := by
  obtain ⟨hbelow, hopen, hphrase⟩ := h
  unfold Stacks.applyLast? at hlast
  split at hlast
  · rename_i op pending right first operands hpending hoperands
    obtain rfl := hpending
    obtain ⟨rfl, rfl⟩ := List.cons.inj hoperands
    obtain rfl := Option.some.inj hlast
    refine ⟨op, rfl, ?_⟩
    cases hbelow with
    | binary hbelow hopen' hleft hkind hsign =>
        have hwhole := Phrase.binary (mem_operatorsOf_precedence op) hleft hkind hsign
          (hphrase.loosen hopen)
        rw [pushOperand_of_open hopen', List.append_assoc, List.append_assoc]
        exact .phrase hbelow hopen' hwhole
  · simp at hlast

theorem EndsWith.applyWhile? {bound : Nat} {goOn : Pending → Bool} (h : EndsWith level read work)
    (hbound : bound ≤ level) (hgoOn : ∀ op, goOn (.binary op) → bound ≤ op.precedence)
    (hdone : work.applyWhile? goOn = some next) : ∃ level', bound ≤ level' ∧ EndsWith level' read next := by
  fun_induction work.applyWhile? goOn generalizing level with
  | case1 work hpending => exact ⟨level, hbound, Option.some.inj hdone ▸ h⟩
  | case2 work top rest hpending htop hlast => simp at hdone
  | case3 work top rest hpending htop middle hlast ih =>
      obtain ⟨op, hop, hmiddle⟩ := h.applyLast? hlast
      obtain rfl : top = .binary op := by simpa [hpending] using hop
      exact ih hmiddle (hgoOn op htop) hdone
  | case4 work top rest hpending htop => exact ⟨level, hbound, Option.some.inj hdone ▸ h⟩

-- Where applying operators has stopped.
theorem head?_of_applyWhile? {goOn : Pending → Bool} (h : work.applyWhile? goOn = some next) :
    ∀ top ∈ next.pending.head?, goOn top = false := by
  fun_induction work.applyWhile? goOn with
  | case1 work hpending =>
      obtain rfl := Option.some.inj h
      simp [hpending]
  | case2 work top rest hpending htop hlast => simp at h
  | case3 work top rest hpending htop middle hlast ih => exact ih h
  | case4 work top rest hpending htop =>
      obtain rfl := Option.some.inj h
      simpa [hpending] using htop

-- There are more operands than the waiting operators take: of `count` operands, one is left of each
-- binary operator and the group that it stands in began above the others.
def Surplus : (count : Nat) → List Pending → Prop
  | count, [] => 0 < count
  | count, .unary _ :: pending => Surplus count pending
  | count, .binary _ :: pending => Surplus (count - 1) pending
  | count, .group depth :: pending => depth < count ∨ Surplus depth pending

theorem Surplus.mono {count more : Nat} {pending : List Pending} (h : Surplus count pending)
    (hle : count ≤ more) : Surplus more pending := by
  fun_induction Surplus count pending generalizing more with
  | case1 count => exact Nat.lt_of_lt_of_le h hle
  | case2 count op pending ih => exact ih h hle
  | case3 count op pending ih => exact ih h (Nat.sub_le_sub_right hle 1)
  | case4 count depth pending ih => exact h.imp_left fun hlt => hlt.trans_le hle

theorem Awaits.surplus {operands : List Expr} {pending : List Pending} {count : Nat}
    (h : Awaits read operands pending) (hlt : operands.length < count) : Surplus count pending := by
  induction h generalizing count with
  | start => exact hlt
  | group => exact .inl hlt
  | unary _ _ _ ih => exact ih hlt
  | binary _ _ _ _ _ ih => exact ih (Nat.lt_sub_of_add_lt hlt)

@[simp] theorem length_operands_pushOperand (operands : List Expr) (pending : List Pending)
    (expr : Expr) : (pushOperand operands pending expr).operands.length = operands.length + 1 := by
  fun_induction pushOperand operands pending expr with
  | case1 pending operand op ih => exact ih
  | case2 => rfl

theorem surplus_pushOperand {count : Nat} (operands : List Expr) {pending : List Pending} (expr : Expr)
    (h : Surplus count pending) : Surplus count (pushOperand operands pending expr).pending := by
  fun_induction pushOperand operands pending expr with
  | case1 pending operand op ih => exact ih h
  | case2 => exact h

theorem surplus_applyLast? (h : Surplus (work.operands.length - 1) work.pending)
    (hlast : work.applyLast? = some next) : Surplus (next.operands.length - 1) next.pending := by
  unfold Stacks.applyLast? at hlast
  split at hlast
  · rename_i op pending right left operands hpending hoperands
    obtain rfl := Option.some.inj hlast
    rw [hpending, hoperands] at h
    rw [length_operands_pushOperand]
    exact surplus_pushOperand operands _ h
  · simp at hlast

theorem surplus_applyWhile? {goOn : Pending → Bool} (h : Surplus (work.operands.length - 1) work.pending)
    (hdone : work.applyWhile? goOn = some next) :
    Surplus (next.operands.length - 1) next.pending := by
  fun_induction work.applyWhile? goOn with
  | case1 work hpending => exact Option.some.inj hdone ▸ h
  | case2 work top rest hpending htop hlast => simp at hdone
  | case3 work top rest hpending htop middle hlast ih => exact ih (surplus_applyLast? h hlast) hdone
  | case4 work top rest hpending htop => exact Option.some.inj hdone ▸ h

-- What an operand that is due comes after.
def Due (read : List (Token Kind)) (work : Stacks) : Prop :=
  match work.pending with
  | [] => work.operands = []
  | .group depth :: _ => work.operands.length = depth
  | .unary _ :: _ => True
  | .binary _ :: _ => ∃ sign ∈ read.getLast?, sign.kind = .operator

theorem Awaits.due {operands : List Expr} {pending : List Pending} (h : Awaits read operands pending) :
    Due read ⟨operands, pending⟩ := by
  cases h with
  | start | group => rfl
  | unary => trivial
  | @binary read left operands pending sign op first _ _ _ hkind _ => exact ⟨sign, by simp, hkind⟩

-- While an operand is due, a group can be closed or the reading finished only after an operator.
theorem Due.not_binary (h : Due read work) (hlast : ∀ token ∈ read.getLast?, token.kind ≠ .operator)
    (op : BinaryOp) (rest : List Pending) : work.pending ≠ .binary op :: rest := by
  intro hpending
  rw [Due, hpending] at h
  obtain ⟨sign, hsign, hkind⟩ := h
  exact hlast sign hsign hkind

theorem Due.closeGroup?_eq_none (h : Due read work)
    (hlast : ∀ token ∈ read.getLast?, token.kind ≠ .operator) : work.closeGroup? = none := by
  obtain ⟨operands, pending⟩ := work
  cases pending with
  | nil => simp [closeGroup?, applyWhile?]
  | cons top rest =>
      cases top with
      | group depth =>
          obtain rfl : operands.length = depth := h
          rw [closeGroup?, applyWhile?_of_false (by simp [isGroup])]
          cases operands <;> simp
      | unary op => simp [closeGroup?, applyWhile?, isGroup, Stacks.applyLast?]
      | binary op => exact absurd rfl (h.not_binary hlast op rest)

theorem Due.finish?_eq_none (h : Due read work)
    (hlast : ∀ token ∈ read.getLast?, token.kind ≠ .operator) : work.finish? = none := by
  obtain ⟨operands, pending⟩ := work
  cases pending with
  | nil =>
      obtain rfl : operands = [] := h
      simp [finish?, applyWhile?]
  | cons top rest =>
      cases top with
      | group | unary => simp [finish?, applyWhile?, isBinary]
      | binary op => exact absurd rfl (h.not_binary hlast op rest)

-- What the reader is about to find: a phrase, or more operands than its operators take.
inductive Tracks (read : List (Token Kind)) : Infix → Prop
  | awaits {operands : List Expr} {pending : List Pending} : Awaits read operands pending →
      Tracks read ⟨⟨operands, pending⟩, false⟩
  | endsWith {work : Stacks} : EndsWith tightest read work → Tracks read ⟨work, true⟩
  | surplusBefore {work : Stacks} : Due read work → Surplus work.operands.length work.pending →
      Tracks read ⟨work, false⟩
  | surplusAfter {work : Stacks} : Surplus (work.operands.length - 1) work.pending →
      Tracks read ⟨work, true⟩

-- Another operand or group is due, or it is one too many.
theorem Tracks.awaits_or_surplus {reader : Infix} (h : Tracks read reader) :
    Awaits read reader.work.operands reader.work.pending ∨
      Surplus reader.work.operands.length reader.work.pending := by
  cases h with
  | awaits hawaits => exact .inl hawaits
  | endsWith hends =>
      obtain ⟨hbelow, _, _⟩ := hends
      exact .inr (hbelow.surplus (Nat.lt_succ_self _))
  | surplusBefore _ hsurplus => exact .inr hsurplus
  | surplusAfter hsurplus => exact .inr (hsurplus.mono (Nat.sub_le _ 1))

theorem Tracks.operand {reader : Infix} {token : Token Kind} (h : Tracks read reader)
    (hphrase : Phrase tightest [token] expr) : Tracks (read ++ [token]) (reader.operand expr) := by
  rcases h.awaits_or_surplus with hawaits | hsurplus
  · exact .endsWith (hawaits.pushOperand hphrase)
  · refine .surplusAfter ?_
    rw [length_operands_pushOperand]
    exact surplus_pushOperand _ _ hsurplus

theorem Tracks.openGroup {reader : Infix} {opening : Token Kind} (h : Tracks read reader)
    (hkind : opening.kind = .leftParen) : Tracks (read ++ [opening]) ⟨reader.work.openGroup, false⟩ := by
  rcases h.awaits_or_surplus with hawaits | hsurplus
  · exact .awaits (.group hawaits hkind)
  · exact .surplusBefore rfl (.inr hsurplus)

theorem Tracks.unary {sign : Token Kind} {op : UnaryOp} (h : Tracks read ⟨work, false⟩)
    (hkind : sign.kind = .operator) (hsign : sign.lexeme = op.symbol) :
    Tracks (read ++ [sign]) ⟨work.pushUnary op, false⟩ := by
  rcases h.awaits_or_surplus with hawaits | hsurplus
  · exact .awaits (.unary hawaits hkind hsign)
  · exact .surplusBefore trivial hsurplus

theorem open_of_bindsAsTight {op : BinaryOp} {pending : List Pending} (hopen : Open level pending)
    (hstop : ∀ top ∈ pending.head?, bindsAsTight op top = false) : Open op.precedence pending := by
  cases pending with
  | nil => trivial
  | cons top rest =>
      cases top with
      | group => trivial
      | unary => exact hopen.elim
      | binary other => simpa [bindsAsTight, Open] using hstop

theorem Tracks.binary {sign : Token Kind} {op : BinaryOp} (h : Tracks read ⟨work, true⟩)
    (hkind : sign.kind = .operator) (hsign : sign.lexeme = op.symbol)
    (hpush : work.pushBinary? op = some next) : Tracks (read ++ [sign]) ⟨next, false⟩ := by
  obtain ⟨middle, hmiddle, hnext⟩ := Option.bind_eq_some_iff.mp hpush
  obtain rfl := Option.some.inj hnext
  cases h with
  | endsWith hends =>
      have hgoOn (other : BinaryOp) (htight : bindsAsTight op (.binary other)) :
          op.precedence ≤ other.precedence := by simpa [bindsAsTight] using htight
      obtain ⟨level, hlevel, hbelow, hopen, hphrase⟩ :=
        hends.applyWhile? (precedence_lt_tightest op).le hgoOn hmiddle
      have hopen' := open_of_bindsAsTight hopen (head?_of_applyWhile? hmiddle)
      exact .awaits (.binary hbelow hopen' (hphrase.loosen hlevel) hkind hsign)
  | surplusAfter hsurplus =>
      exact .surplusBefore ⟨sign, by simp, hkind⟩ (surplus_applyWhile? hsurplus hmiddle)

theorem one_le_precedence (op : BinaryOp) : 1 ≤ op.precedence := by
  cases op <;> decide

theorem Tracks.closeGroup {reader : Infix} {closing : Token Kind} (h : Tracks read reader)
    (hkind : closing.kind = .rightParen) (hlast : ∀ token ∈ read.getLast?, token.kind ≠ .operator)
    (hclose : reader.work.closeGroup? = some next) : Tracks (read ++ [closing]) ⟨next, true⟩ := by
  have hnot_due (hdue : Due read reader.work) : False := by
    simp [hdue.closeGroup?_eq_none hlast] at hclose
  obtain ⟨middle, hmiddle, hnext⟩ := Option.bind_eq_some_iff.mp hclose
  split at hnext
  · rename_i depth pending operand operands hpending hoperands
    split at hnext
    · rename_i hdepth
      obtain rfl := Option.some.inj hnext
      cases h with
      | awaits hawaits => exact (hnot_due hawaits.due).elim
      | surplusBefore hdue => exact (hnot_due hdue).elim
      | endsWith hends =>
          obtain ⟨level, hlevel, hbelow, hopen, hphrase⟩ :=
            hends.applyWhile? (by decide) (fun op _ => one_le_precedence op) hmiddle
          obtain rfl := hpending
          obtain ⟨rfl, rfl⟩ := List.cons.inj hoperands
          cases hbelow with
          | group hbelow hopening =>
              have hgroup := Phrase.group hopening (hphrase.loosen hlevel) hkind
              simpa using Tracks.endsWith (hbelow.pushOperand hgroup)
      | surplusAfter hsurplus =>
          have hsurplus := surplus_applyWhile? hsurplus hmiddle
          rw [hpending, hoperands] at hsurplus
          refine .surplusAfter ?_
          rw [length_operands_pushOperand]
          refine surplus_pushOperand operands operand (hsurplus.elim (fun hlt => ?_) fun h => ?_)
          · simp [hdepth] at hlt
          · exact hdepth ▸ h
    · simp at hnext
  · simp at hnext

theorem eq_symbol_of_unaryOfSymbol? {symbol : String} {op : UnaryOp}
    (h : UnaryOp.ofSymbol? symbol = some op) : symbol = op.symbol := by
  have hop : op.symbol = symbol := by simpa using List.find?_some h
  exact hop.symm

theorem eq_symbol_of_binaryOfSymbol? {symbol : String} {op : BinaryOp}
    (h : BinaryOp.ofSymbol? symbol = some op) : symbol = op.symbol := by
  have hop : op.symbol = symbol := by simpa using List.find?_some h
  exact hop.symm

theorem phrase_of_ofDigits? {token : Token Kind} {value : Value} (hkind : token.kind = .literal)
    (h : Value.ofDigits? token.lexeme.toList = some value) :
    Phrase tightest [token] (.literal value) := by
  obtain ⟨number, hnumber, hvalue⟩ := Option.bind_eq_some_iff.mp h
  unfold Value.ofInt? at hvalue
  split at hvalue
  · rename_i hrange
    obtain rfl := Option.some.inj hvalue
    exact .literal hkind hnumber hrange.2
  · simp at hvalue

theorem Tracks.step {reader after : Infix} {token : Token Kind} (h : Tracks read reader)
    (hlast : ∀ before ∈ read.getLast?, before.kind = .operator → token.kind ≠ .rightParen)
    (hstep : reader.step token = .ok after) : Tracks (read ++ [token]) after := by
  unfold Infix.step at hstep
  split at hstep
  · rename_i hkind
    obtain rfl := Except.ok.inj hstep
    exact h.openGroup hkind
  · rename_i hkind
    obtain ⟨next, hnext, rfl⟩ := map_eq_ok_iff.mp hstep
    refine h.closeGroup hkind (fun before hbefore hoperator => ?_) (wellFormed_eq_ok_iff.mp hnext)
    exact hlast before hbefore hoperator hkind
  · rename_i hkind
    obtain ⟨work, afterOperand⟩ := reader
    cases afterOperand with
    | true =>
        obtain ⟨op, hop, hpush⟩ := Option.bind_eq_some_iff.mp (wellFormed_eq_ok_iff.mp hstep)
        obtain ⟨next, hnext, hafter⟩ := Option.bind_eq_some_iff.mp hpush
        obtain rfl := Option.some.inj hafter
        exact h.binary hkind (eq_symbol_of_binaryOfSymbol? hop) hnext
    | false =>
        obtain ⟨op, hop, hafter⟩ := Option.bind_eq_some_iff.mp (wellFormed_eq_ok_iff.mp hstep)
        obtain rfl := Option.some.inj hafter
        exact h.unary hkind (eq_symbol_of_unaryOfSymbol? hop)
  · rename_i hkind
    split at hstep
    · rename_i value hvalue
      obtain rfl := Except.ok.inj hstep
      exact h.operand (phrase_of_ofDigits? hkind hvalue)
    · simp at hstep
  · rename_i hkind
    obtain rfl := Except.ok.inj hstep
    exact h.operand (.var hkind)
  · rename_i hkind
    obtain rfl := Except.ok.inj hstep
    exact h.operand (.const hkind)
  · simp at hstep

-- The reader keeps track of all tokens as long as no group ends with an operator.
theorem Tracks.foldlM {reader after : Infix} (h : Tracks read reader)
    (hchain : (read ++ tokens).IsChain fun token next => token.kind = .operator → next.kind ≠ .rightParen)
    (hfold : tokens.foldlM Infix.step reader = .ok after) : Tracks (read ++ tokens) after := by
  induction tokens generalizing read reader with
  | nil =>
      obtain rfl : reader = after := by simpa [pure, Except.pure] using hfold
      simpa using h
  | cons token tokens ih =>
      rw [List.foldlM_cons] at hfold
      obtain ⟨middle, hmiddle, hfold⟩ := bind_eq_ok_iff.mp hfold
      have hnext (before : Token Kind) (hbefore : before ∈ read.getLast?) :
          before.kind = .operator → token.kind ≠ .rightParen :=
        (List.isChain_append.mp hchain).2.2 before hbefore token (by simp)
      rw [List.append_cons] at hchain ⊢
      exact ih (h.step hnext hmiddle) hchain hfold

theorem Tracks.phrase_of_finish? {reader : Infix} (h : Tracks read reader)
    (hlast : ∀ token ∈ read.getLast?, token.kind ≠ .operator)
    (hfinish : reader.work.finish? = some expr) : Phrase 1 read expr := by
  have hnot_due (hdue : Due read reader.work) : False := by
    simp [hdue.finish?_eq_none hlast] at hfinish
  obtain ⟨middle, hmiddle, hwhole⟩ := Option.bind_eq_some_iff.mp hfinish
  split at hwhole
  · rename_i operand hpending hoperands
    obtain rfl := Option.some.inj hwhole
    cases h with
    | awaits hawaits => exact (hnot_due hawaits.due).elim
    | surplusBefore hdue => exact (hnot_due hdue).elim
    | endsWith hends =>
        obtain ⟨level, hlevel, hbelow, hopen, hphrase⟩ :=
          hends.applyWhile? (by decide) (fun op _ => one_le_precedence op) hmiddle
        obtain rfl := hpending
        obtain ⟨rfl, rfl⟩ := List.cons.inj hoperands
        cases hbelow with
        | start => exact hphrase.loosen hlevel
    | surplusAfter hsurplus =>
        have hsurplus := surplus_applyWhile? hsurplus hmiddle
        rw [hpending, hoperands] at hsurplus
        exact absurd hsurplus (Nat.lt_irrefl 0)
  · simp at hwhole

-- What the reader accepts is a well-formed expression exactly when no operator in it is left without
-- something to its right.
theorem phrase_iff_of_ofInfix (h : ofInfix tokens = .ok expr) :
    Phrase 1 tokens expr ↔ NothingDangles tokens := by
  refine ⟨Phrase.nothingDangles, fun hdangles => ?_⟩
  obtain ⟨reader, hfold, hfinish⟩ := bind_eq_ok_iff.mp h
  have htracks : Tracks tokens reader := Tracks.foldlM (.awaits .start) hdangles.chain hfold
  exact htracks.phrase_of_finish? hdangles.last (wellFormed_eq_ok_iff.mp hfinish)

theorem phrase_iff_of_ofInfix_chain : ofInfix chain = .ok chainTree ∧
    (Phrase 1 chain chainTree ↔ NothingDangles chain) := by
  have haccepted : ofInfix chain = .ok chainTree := by decide +kernel
  exact ⟨haccepted, phrase_iff_of_ofInfix haccepted⟩

-- 1 2 +
def postfixSum : List (Token Kind) := [number "1", number "2", sign "+"]

-- The reader takes an operand too many for one that is missing.
theorem ofInfix_postfixSum : ofInfix postfixSum = .ok (.binary .add (.literal 1) (.literal 2)) ∧
    ¬ ∃ expr, Phrase 1 postfixSum expr := by
  refine ⟨by decide +kernel, ?_⟩
  rintro ⟨expr, hphrase⟩
  exact hphrase.nothingDangles.last (sign "+") rfl rfl

end Handheld.Expr
