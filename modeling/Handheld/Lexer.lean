import Handheld.Pattern.Matching
import Handheld.Token

namespace Handheld

open Text

-- What matches at the start of a text: all that a lexer has to know of its patterns.
class Matcher (π : Type) where
  matchLength? : π → List Char → Option Nat

instance : Matcher Pattern where
  matchLength? := Pattern.matchLength?

-- Rules that cut a text into tokens. The first rule in the list that matches
-- reads the next token; text that matches an ignored pattern separates tokens.
-- With `endMarker` a token of that kind and without text closes the run.
structure Lexer (κ : Type) (π : Type := Pattern) where
  rules : List (κ × π)
  ignored : List π
  endMarker : Option κ

structure Lexer.State where
  rest : List Char
  position : Position
  finished : Bool
  deriving DecidableEq, Repr

namespace Lexer

namespace State

def start (source : String) : State := ⟨source.toList, .start, false⟩

def skip (state : State) (count : Nat) : State :=
  ⟨state.rest.drop count, state.position.advance (state.rest.take count), state.finished⟩

def finish (state : State) : State := ⟨state.rest, state.position, true⟩

-- A finished run has weight 0, and every token but the end marker has text.
def weight (state : State) : Nat := if state.finished then 0 else state.rest.length + 1

end State

variable {κ π : Type} [Matcher π]

-- One round tries each ignored pattern once, in order.
def ignoredInRound (ignored : List π) (text : List Char) : Nat :=
  match ignored with
  | [] => 0
  | pattern :: patterns =>
    let count := (Matcher.matchLength? pattern text).getD 0
    count + ignoredInRound patterns (text.drop count)

-- The length of the separating text at the start: rounds of ignored patterns until one finds nothing.
def ignoredLength (ignored : List π) : List Char → Nat
  | [] => 0
  | c :: rest =>
    match ignoredInRound ignored (c :: rest) with
    | 0 => 0
    | count + 1 => count + 1 + ignoredLength ignored (rest.drop count)
termination_by text => text.length
decreasing_by simp only [List.length_drop, List.length_cons]; omega

-- The first rule with a match that is not empty, and the length of that match.
def firstMatch? (rules : List (κ × π)) (text : List Char) : Option (κ × Nat) :=
  rules.findSome? fun (kind, pattern) =>
    match Matcher.matchLength? pattern text with
    | some (count + 1) => some (kind, count + 1)
    | _ => none

-- Nothing comes after the end of the text or after an error.
def pull (lexer : Lexer κ π) (state : State) : Option (Except LexicalError (Token κ) × State) :=
  if state.finished then none
  else
    let state := state.skip (ignoredLength lexer.ignored state.rest)
    if state.rest.isEmpty then
      lexer.endMarker.map fun kind => (.ok ⟨kind, "", state.position⟩, state.finish)
    else match firstMatch? lexer.rules state.rest with
      | some (kind, count) =>
        let lexeme := String.ofList (state.rest.take count)
        some (.ok ⟨kind, lexeme, state.position⟩, state.skip count)
      | none =>
        let snippet := String.ofList (state.rest.take 3)
        some (.error ⟨snippet, state.position⟩, state.finish)

theorem firstMatch?_pos {rules : List (κ × π)} {text : List Char} {kind : κ} {count : Nat}
    (h : firstMatch? rules text = some (kind, count)) : 0 < count := by
  obtain ⟨rule, _, hrule⟩ := List.exists_of_findSome?_eq_some h
  grind

-- A pulled token either ends the run or takes text from it.
theorem weight_lt_of_pull {lexer : Lexer κ π} {state next : State}
    {out : Except LexicalError (Token κ)} (h : lexer.pull state = some (out, next)) :
    next.weight < state.weight := by
  unfold pull at h
  split at h
  · simp at h
  · rename_i running
    simp only [Bool.not_eq_true] at running
    dsimp only at h
    split at h
    · simp only [Option.map_eq_some_iff, Prod.mk.injEq] at h
      obtain ⟨_, _, _, rfl⟩ := h
      simp [State.weight, State.finish, running]
    · split at h
      · rename_i more _ _ count found
        have hpos := firstMatch?_pos found
        simp only [Option.some.injEq, Prod.mk.injEq] at h
        obtain ⟨_, rfl⟩ := h
        simp only [List.isEmpty_iff, State.skip, List.drop_eq_nil_iff] at more
        simp only [State.weight, State.skip, running, Bool.false_eq_true, if_false,
          List.length_drop]
        omega
      · simp only [Option.some.injEq, Prod.mk.injEq] at h
        obtain ⟨_, rfl⟩ := h
        simp [State.weight, State.finish, running]

-- Everything that can be pulled from a state: tokens and, where
-- the text cannot be read to its end, one error after them.
def pullAll (lexer : Lexer κ π) (state : State) : List (Except LexicalError (Token κ)) :=
  match _h : lexer.pull state with
  | none => []
  | some (out, next) => out :: lexer.pullAll next
termination_by state.weight
decreasing_by exact weight_lt_of_pull _h

def run (lexer : Lexer κ π) (source : String) : List (Except LexicalError (Token κ)) :=
  lexer.pullAll (.start source)

def tokens (lexer : Lexer κ π) (source : String) : Except LexicalError (List (Token κ)) :=
  (lexer.run source).mapM id

end Lexer

end Handheld
