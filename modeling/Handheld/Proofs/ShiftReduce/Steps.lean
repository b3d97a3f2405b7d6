import Handheld.Proofs.Automaton.Actions
import Handheld.ShiftReduce
import Mathlib.Logic.Relation

namespace Handheld.Tables

open Text

variable {tables : Tables} {result : Except ParseError ParseTree}

-- The reduce that is due on a stack. It is the same one whatever token comes next.
inductive Reduces (tables : Tables) (stack : List (Nat × ParseTree)) : List (Nat × ParseTree) → Prop
  | intro {rule next : Nat} {production : Production} :
      tables.actions.reduce? (topState stack) = some rule →
      tables.production? rule = some production → production.rhs.length ≤ stack.length →
      tables.goto? (topState (stack.drop production.rhs.length)) production.lhs = some next →
      Reduces tables stack
        ((next, .branch production.lhs ((stack.take production.rhs.length).map (·.2)).reverse) ::
          stack.drop production.rhs.length)

def Steps (tables : Tables) (before after : Parsing) : Prop := tables.step before = .next after

def Reaches (tables : Tables) : Parsing → Parsing → Prop := Relation.ReflTransGen tables.Steps

theorem reduce_eq_next_iff {parsing after : Parsing} {token : Token String} {rule : Nat} :
    tables.reduce parsing token rule = .next after ↔
      ∃ production next, tables.production? rule = some production ∧
        production.rhs.length ≤ parsing.stack.length ∧
        tables.goto? (topState (parsing.stack.drop production.rhs.length)) production.lhs = some next ∧
        after = ⟨(next, .branch production.lhs
          ((parsing.stack.take production.rhs.length).map (·.2)).reverse) ::
            parsing.stack.drop production.rhs.length, token.position, parsing.input⟩ := by
  simp only [reduce]
  split
  · simp_all [unexpected]
  · rename_i production hproduction
    split
    · rename_i hlength
      simp [unexpected, hproduction, Nat.not_le.mpr hlength]
    · rename_i hlength
      split
      · simp_all [unexpected]
      · rename_i next hgoto
        simp [hproduction, Nat.le_of_not_lt hlength, hgoto, eq_comm]

-- A step is taken with a token ahead: the token is shifted, or the stack is reduced before it.
theorem steps_iff {before after : Parsing} :
    tables.Steps before after ↔ ∃ token rest, before.input = .ok token :: rest ∧
      ((∃ next, tables.action? (topState before.stack) token.kind = some (.shift next) ∧
          after = ⟨(next, .leaf token) :: before.stack, token.position, rest⟩) ∨
        ∃ stack, tables.Reduces before.stack stack ∧
          after = ⟨stack, token.position, before.input⟩) := by
  obtain ⟨stack, position, input⟩ := before
  unfold Steps step
  rcases input with _ | ⟨error | token, rest⟩
  · simp
  · simp
  · simp only [List.cons.injEq, Except.ok.injEq]
    constructor
    · intro h
      refine ⟨token, rest, ⟨rfl, rfl⟩, ?_⟩
      split at h
      · rename_i next haction
        exact .inl ⟨next, haction, (Step.next.inj h).symm⟩
      · rename_i rule haction
        obtain ⟨production, next, hproduction, hlength, hgoto, rfl⟩ := reduce_eq_next_iff.mp h
        exact .inr ⟨_, .intro (ActionTable.action?_eq_reduce_iff.mp haction) hproduction hlength hgoto,
          rfl⟩
      · simp at h
      · simp [unexpected] at h
    · rintro ⟨token, rest, ⟨rfl, rfl⟩, ⟨next, haction, rfl⟩ | ⟨stack', hreduces, rfl⟩⟩
      · simp [haction]
      · obtain ⟨hrule, hproduction, hlength, hgoto⟩ := hreduces
        rw [action?, ActionTable.action?_eq_reduce_iff.mpr hrule]
        exact reduce_eq_next_iff.mpr ⟨_, _, hproduction, hlength, hgoto, rfl⟩

theorem Steps.shift {stack : List (Nat × ParseTree)} {position : Position} {token : Token String}
    {rest : List (Except LexicalError (Token String))} {next : Nat}
    (h : tables.action? (topState stack) token.kind = some (.shift next)) :
    tables.Steps ⟨stack, position, .ok token :: rest⟩
      ⟨(next, .leaf token) :: stack, token.position, rest⟩ :=
  steps_iff.mpr ⟨token, rest, rfl, .inl ⟨next, h, rfl⟩⟩

theorem Steps.reduce {stack after : List (Nat × ParseTree)} {position : Position}
    {token : Token String} {rest : List (Except LexicalError (Token String))}
    (h : tables.Reduces stack after) :
    tables.Steps ⟨stack, position, .ok token :: rest⟩ ⟨after, token.position, .ok token :: rest⟩ :=
  steps_iff.mpr ⟨token, rest, rfl, .inr ⟨after, h, rfl⟩⟩

theorem step_eq_ok_iff {parsing : Parsing} {tree : ParseTree} :
    tables.step parsing = .done (.ok tree) ↔ ∃ token rest, parsing.input = .ok token :: rest ∧
      tables.action? (topState parsing.stack) token.kind = some .accept ∧
        tree = .branch tables.start (parsing.stack.map (·.2)).reverse := by
  obtain ⟨stack, position, input⟩ := parsing
  unfold step
  rcases input with _ | ⟨error | token, rest⟩
  · simp
  · simp
  · simp only [List.cons.injEq, Except.ok.injEq]
    cases haction : tables.action? (topState stack) token.kind with
    | none => simp_all [unexpected]
    | some action =>
        cases action with
        | shift next => simp_all
        | accept => simp_all [eq_comm]
        | reduce rule =>
            simp only [reduce]
            split
            · simp_all [unexpected]
            · split
              · simp_all [unexpected]
              · split <;> simp_all [unexpected]

theorem run_add_of_some {fuel more : Nat} {parsing : Parsing}
    (h : tables.run fuel parsing = some result) : tables.run (fuel + more) parsing = some result := by
  induction fuel generalizing parsing with
  | zero => simp [run] at h
  | succ fuel ih =>
      rw [Nat.succ_add]
      simp only [run] at h ⊢
      split at h
      · simpa using h
      · exact ih h

theorem run_of_le {fuel fuel' : Nat} {parsing : Parsing} (hle : fuel ≤ fuel')
    (h : tables.run fuel parsing = some result) : tables.run fuel' parsing = some result := by
  obtain ⟨more, rfl⟩ := Nat.exists_eq_add_of_le hle
  exact run_add_of_some h

theorem run_succ_of_steps {before after : Parsing} (h : tables.Steps before after) (fuel : Nat) :
    tables.run (fuel + 1) before = tables.run fuel after := by
  rw [run, show tables.step before = .next after from h]

theorem exists_run_of_reaches {before after : Parsing} (h : tables.Reaches before after)
    (hdone : tables.step after = .done result) : ∃ fuel, tables.run fuel before = some result := by
  induction h using Relation.ReflTransGen.head_induction_on with
  | refl => exact ⟨1, by rw [run, hdone]⟩
  | head hstep _ ih =>
      obtain ⟨fuel, hrun⟩ := ih
      exact ⟨fuel + 1, (run_succ_of_steps hstep fuel).trans hrun⟩

theorem reaches_of_run {fuel : Nat} {parsing : Parsing} (h : tables.run fuel parsing = some result) :
    ∃ last, tables.Reaches parsing last ∧ tables.step last = .done result := by
  induction fuel generalizing parsing with
  | zero => simp [run] at h
  | succ fuel ih =>
      simp only [run] at h
      split at h
      · rename_i hdone
        exact ⟨parsing, .refl, hdone.trans (congrArg _ (Option.some.inj h))⟩
      · rename_i next hnext
        obtain ⟨last, hreaches, hdone⟩ := ih h
        exact ⟨last, hreaches.head hnext, hdone⟩

-- A run never looks past the token that comes next.
theorem reaches_append {before after : Parsing} (h : tables.Reaches before after)
    (tail : List (Except LexicalError (Token String))) :
    tables.Reaches ⟨before.stack, before.position, before.input ++ tail⟩
      ⟨after.stack, after.position, after.input ++ tail⟩ := by
  refine Relation.ReflTransGen.lift (fun parsing : Parsing =>
    (⟨parsing.stack, parsing.position, parsing.input ++ tail⟩ : Parsing)) ?_ _ _ h
  intro before after hstep
  obtain ⟨token, rest, hinput, ⟨next, haction, rfl⟩ | ⟨stack, hreduces, rfl⟩⟩ := steps_iff.mp hstep
  · exact steps_iff.mpr ⟨token, rest ++ tail, by simp [hinput], .inl ⟨next, haction, rfl⟩⟩
  · exact steps_iff.mpr ⟨token, rest ++ tail, by simp [hinput], .inr ⟨stack, hreduces, rfl⟩⟩

-- A run that uses up some tokens has a first place where they are used up, and comes there with these
-- tokens alone.
theorem exists_of_reaches_append {stack : List (Nat × ParseTree)} {position : Position}
    {tokens : List (Token String)} {tail : List (Except LexicalError (Token String))}
    {after : Parsing} (h : tables.Reaches ⟨stack, position, tokens.map .ok ++ tail⟩ after)
    (hafter : after.input.length ≤ tail.length) :
    ∃ stack' position', tables.Reaches ⟨stack, position, tokens.map .ok⟩ ⟨stack', position', []⟩ ∧
      tables.Reaches ⟨stack', position', tail⟩ after := by
  generalize hbefore : (⟨stack, position, tokens.map .ok ++ tail⟩ : Parsing) = before at h
  induction h using Relation.ReflTransGen.head_induction_on generalizing stack position tokens with
  | refl =>
      obtain rfl := hbefore
      cases tokens with
      | nil => exact ⟨stack, position, .refl, .refl⟩
      | cons token tokens =>
          simp only [List.length_append, List.length_map, List.length_cons] at hafter
          omega
  | head hstep hreaches ih =>
      obtain rfl := hbefore
      cases tokens with
      | nil => exact ⟨stack, position, .refl, hreaches.head hstep⟩
      | cons token tokens =>
          obtain ⟨found, rest, hinput, ⟨next, haction, rfl⟩ | ⟨reduced, hreduces, rfl⟩⟩ :=
            steps_iff.mp hstep
          · obtain ⟨rfl, rfl⟩ := by simpa using hinput
            obtain ⟨stack', position', hfirst, hsecond⟩ := ih rfl
            exact ⟨stack', position', hfirst.head (.shift haction), hsecond⟩
          · obtain ⟨rfl, rfl⟩ := by simpa using hinput
            have hsame : (⟨reduced, token.position, (token :: tokens).map .ok ++ tail⟩ : Parsing) =
                ⟨reduced, token.position, .ok token :: (tokens.map .ok ++ tail)⟩ := rfl
            obtain ⟨stack', position', hfirst, hsecond⟩ := ih hsame
            exact ⟨stack', position', hfirst.head (.reduce hreduces), hsecond⟩

-- After the last token its place is the place of the parser.
theorem position_of_reaches {stack stack' : List (Nat × ParseTree)} {position position' : Position}
    {tokens : List (Token String)}
    (h : tables.Reaches ⟨stack, position, tokens.map .ok⟩ ⟨stack', position', []⟩) :
    position' = (tokens.getLast?.map Token.position).getD position := by
  generalize hbefore : (⟨stack, position, tokens.map .ok⟩ : Parsing) = before at h
  induction h using Relation.ReflTransGen.head_induction_on generalizing stack position tokens with
  | refl => simp_all
  | head hstep _ ih =>
      obtain rfl := hbefore
      obtain ⟨token, rest, hinput, ⟨next, haction, rfl⟩ | ⟨reduced, hreduces, rfl⟩⟩ :=
        steps_iff.mp hstep
      · obtain ⟨first, tokens, rfl, hfirst, rfl⟩ := List.map_eq_cons_iff.mp hinput
        obtain rfl := Except.ok.inj hfirst
        rw [ih rfl]
        cases hlast : tokens.getLast? <;> simp [List.getLast?_cons, hlast]
      · obtain ⟨first, tokens, rfl, _⟩ := List.map_eq_cons_iff.mp hinput
        rw [ih rfl]
        simp [List.getLast?_cons]

end Handheld.Tables
