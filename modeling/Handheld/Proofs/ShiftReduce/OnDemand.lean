import Handheld.Proofs.Lexer.Tiling
import Handheld.ShiftReduce

namespace Handheld

open Text

variable {π : Type} [Matcher π]

namespace Tables

-- A parser at work on a text: next to what it has read, it holds the latest thing that it has pulled, and
-- the lexer stands behind that.
structure Live where
  stack : List (Nat × ParseTree)
  position : Position
  ahead? : Option (Except LexicalError (Token String))
  source : Lexer.State

inductive LiveStep where
  | next (live : Live)
  | done (result : Except ParseError ParseTree)

variable (tables : Tables) (lexer : Lexer String π)

def pullAhead (stack : List (Nat × ParseTree)) (position : Position) (source : Lexer.State) : Live :=
  ⟨stack, position, (lexer.pull source).map (·.1), lexer.afterPull source⟩

-- A step with nothing of the input but what is ahead. Only a token that has been shifted makes room for
-- the next one to be pulled.
def liveStep (live : Live) : LiveStep :=
  match live.ahead? with
  | none => .done (.error (.unexpectedEnd live.position))
  | some (.error error) => .done (.error (.lexical error))
  | some (.ok token) =>
    match tables.action? (topState live.stack) token.kind with
    | some (.shift next) =>
      .next (pullAhead lexer ((next, .leaf token) :: live.stack) token.position live.source)
    | some (.reduce rule) =>
      match tables.reduce ⟨live.stack, live.position, []⟩ token rule with
      | .next reduced => .next ⟨reduced.stack, reduced.position, live.ahead?, live.source⟩
      | .done result => .done result
    | some .accept => .done (.ok (.branch tables.start (live.stack.map (·.2)).reverse))
    | none => .done (.error (.unexpected token.kind token.position))

def runLive : (fuel : Nat) → Live → Option (Except ParseError ParseTree)
  | 0, _ => none
  | fuel + 1, live =>
    match liveStep tables lexer live with
    | .done result => some result
    | .next live => runLive fuel live

-- The same parser with all that the lexer is going to give it.
def Live.parsing (lexer : Lexer String π) (live : Live) : Parsing :=
  ⟨live.stack, live.position, live.ahead?.toList ++ lexer.pullAll live.source⟩

-- Nothing is ahead only when the lexer has come to its end.
def Live.IsFed (lexer : Lexer String π) (live : Live) : Prop :=
  live.ahead? = none → lexer.pullAll live.source = []

variable {tables lexer} {live : Live}

theorem isFed_pullAhead (stack : List (Nat × ParseTree)) (position : Position) (source : Lexer.State) :
    (pullAhead lexer stack position source).IsFed lexer := by
  intro hnone
  have hpull : lexer.pull source = none := by simpa [pullAhead] using hnone
  simp [pullAhead, Lexer.afterPull, hpull, Lexer.pullAll_of_none hpull]

theorem parsing_pullAhead (stack : List (Nat × ParseTree)) (position : Position)
    (source : Lexer.State) :
    (pullAhead lexer stack position source).parsing lexer = ⟨stack, position, lexer.pullAll source⟩ := by
  cases hpull : lexer.pull source with
  | none =>
      simp [Live.parsing, pullAhead, Lexer.afterPull, hpull, Lexer.pullAll_of_none hpull]
  | some pulled =>
      simp [Live.parsing, pullAhead, Lexer.afterPull, hpull, Lexer.pullAll_of_some hpull]

-- A reduction leaves the input alone.
theorem reduce_eq (stack : List (Nat × ParseTree)) (position : Position)
    (input : List (Except LexicalError (Token String))) (token : Token String) (rule : Nat) :
    tables.reduce ⟨stack, position, input⟩ token rule =
      match tables.reduce ⟨stack, position, []⟩ token rule with
      | .next reduced => .next ⟨reduced.stack, reduced.position, input⟩
      | .done result => .done result := by
  simp only [reduce]
  cases tables.production? rule with
  | none => rfl
  | some production =>
      dsimp only
      split
      · rfl
      · cases tables.goto? (topState (stack.drop production.rhs.length)) production.lhs <;> rfl

-- The two parsers do the same at each step.
theorem liveStep_cases (tables : Tables) (hfed : live.IsFed lexer) :
    (∃ result, liveStep tables lexer live = .done result ∧
      tables.step (live.parsing lexer) = .done result) ∨
    ∃ next, liveStep tables lexer live = .next next ∧ next.IsFed lexer ∧
      tables.step (live.parsing lexer) = .next (next.parsing lexer) := by
  obtain ⟨stack, position, _ | _ | token, source⟩ := live
  · exact .inl ⟨_, rfl, by simp [Live.parsing, hfed rfl, step]⟩
  · exact .inl ⟨_, rfl, rfl⟩
  · simp only [liveStep, Live.parsing, Option.toList_some, List.singleton_append, step]
    cases tables.action? (topState stack) token.kind with
    | none => exact .inl ⟨_, rfl, rfl⟩
    | some action =>
        cases action with
        | accept => exact .inl ⟨_, rfl, rfl⟩
        | shift next =>
            refine .inr ⟨_, rfl, isFed_pullAhead _ _ _, ?_⟩
            exact congrArg Step.next (parsing_pullAhead _ _ _).symm
        | reduce rule =>
            dsimp only
            rw [reduce_eq stack position (.ok token :: lexer.pullAll source)]
            cases tables.reduce ⟨stack, position, []⟩ token rule with
            | done result => exact .inl ⟨result, rfl, rfl⟩
            | next reduced => exact .inr ⟨_, rfl, by simp [Live.IsFed], rfl⟩

theorem runLive_eq_run (hfed : live.IsFed lexer) (fuel : Nat) :
    runLive tables lexer fuel live = tables.run fuel (live.parsing lexer) := by
  induction fuel generalizing live with
  | zero => rfl
  | succ fuel ih =>
      rw [runLive, run]
      rcases liveStep_cases tables hfed with ⟨result, hlive, hstep⟩ | ⟨next, hlive, hnext, hstep⟩
      · rw [hlive, hstep]
      · rw [hlive, hstep]
        exact ih hnext

-- To lex while parsing is to parse what lexing gives.
theorem runLive_start (tables : Tables) (lexer : Lexer String π) (source : String) (fuel : Nat) :
    runLive tables lexer fuel (pullAhead lexer [] .start (.start source)) =
      tables.run fuel ⟨[], .start, lexer.run source⟩ := by
  rw [runLive_eq_run (isFed_pullAhead _ _ _), parsing_pullAhead]
  rfl

end Tables

end Handheld
