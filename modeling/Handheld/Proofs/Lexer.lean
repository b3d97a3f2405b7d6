import Handheld.Proofs.Lexer.Tiling
import Handheld.Proofs.Pattern.Matching

namespace Handheld.Lexer

variable {κ : Type} {lexer : Lexer κ}

-- A token with some text that one of the rules describes.
def ReadBy (lexer : Lexer κ) (token : Token κ) : Prop :=
  ∃ pattern, (token.kind, pattern) ∈ lexer.rules ∧ pattern.Spells token.lexeme.toList

theorem Takes.spells {pattern : Pattern} {taken rest : List Char} (h : Takes pattern taken rest) :
    pattern.Spells taken := by
  obtain ⟨_, hmatched⟩ := h
  obtain ⟨count, hmatch, htake⟩ := Option.map_eq_some_iff.mp hmatched
  exact htake ▸ (Pattern.spells_of_matchLength? hmatch).2

theorem FirstMatch.readBy {kind : κ} {lexeme rest : List Char} (h : FirstMatch lexer.rules kind lexeme rest)
    (position : Text.Position) : lexer.ReadBy ⟨kind, .ofList lexeme, position⟩ := by
  obtain ⟨before, pattern, after, hrules, htakes, _⟩ := h
  exact ⟨pattern, by simp [hrules], by simpa using htakes.spells⟩

-- The text before a token has no other characters than the ignored patterns.
theorem Skips.exists_contains {ignored : List Pattern} {gap rest : List Char} (h : Skips ignored rest gap) :
    ∀ c ∈ gap, ∃ pattern ∈ ignored, ∃ cls ∈ pattern.classes, cls.contains c := by
  induction h with
  | nil => simp
  | cons hmem htakes _ ih =>
      intro c hc
      rcases List.mem_append.mp hc with htaken | hgap
      · exact ⟨_, hmem, Pattern.contains_of_spells htakes.spells c htaken⟩
      · exact ih c hgap

-- The first token stands right after the ignored text.
theorem Tiling.exists_gap {read text : List Char} {token : Token κ}
    {outs : List (Except LexicalError (Token κ))} (h : Tiling lexer read text (.ok token :: outs)) :
    ∃ gap rest, Gap lexer.ignored gap rest ∧ token.position = .after (read ++ gap) := by
  generalize hall : Except.ok token :: outs = all at h
  cases h with
  | token hgap =>
      obtain ⟨rfl, _⟩ := by simpa using hall
      exact ⟨_, _, hgap, rfl⟩
  | finished hgap =>
      cases hmarker : lexer.endMarker with
      | none => simp [hmarker] at hall
      | some kind =>
          obtain ⟨rfl, _⟩ := by simpa [hmarker] using hall
          exact ⟨_, _, hgap, rfl⟩
  | stuck => simp at hall

-- Without an end marker all tokens are of the rules.
theorem Tiling.readBy (hmarker : lexer.endMarker = none) {read text : List Char}
    {outs : List (Except LexicalError (Token κ))} (h : Tiling lexer read text outs) :
    ∀ token, .ok token ∈ outs → lexer.ReadBy token := by
  induction h with
  | token _ hfirst _ ih =>
      intro token htoken
      rcases List.mem_cons.mp htoken with hhere | hlater
      · exact Except.ok.inj hhere ▸ hfirst.readBy _
      · exact ih token hlater
  | finished => simp [hmarker]
  | stuck => simp

-- A tiling has tokens of the rules and then the end marker or an error.
theorem Tiling.exists_tokens {marker : κ} (hmarker : lexer.endMarker = some marker)
    {read text : List Char} {outs : List (Except LexicalError (Token κ))} (h : Tiling lexer read text outs) :
    ∃ (tokens : List (Token κ)) (last : Except LexicalError (Token κ)),
      outs = tokens.map .ok ++ [last] ∧ (∀ token ∈ tokens, lexer.ReadBy token) ∧
        ((∃ position, last = .ok ⟨marker, "", position⟩) ∨ ∃ error, last = .error error) := by
  induction h with
  | token _ hfirst _ ih =>
      obtain ⟨tokens, last, rfl, hread, hlast⟩ := ih
      refine ⟨_ :: tokens, last, rfl, ?_, hlast⟩
      exact List.forall_mem_cons.mpr ⟨hfirst.readBy _, hread⟩
  | finished =>
      rw [hmarker]
      exact ⟨[], _, rfl, by simp, .inl ⟨_, rfl⟩⟩
  | stuck => exact ⟨[], _, rfl, by simp, .inr ⟨_, rfl⟩⟩

-- What at most so many pulls give. Unlike a run, this can be evaluated.
def pullUpTo (lexer : Lexer κ) : Nat → State → List (Except LexicalError (Token κ))
  | 0, _ => []
  | count + 1, state =>
    match lexer.pull state with
    | none => []
    | some (out, next) => out :: lexer.pullUpTo count next

theorem pullAll_eq_pullUpTo {state : State} {count : Nat} (h : state.weight < count) :
    lexer.pullAll state = lexer.pullUpTo count state := by
  induction count generalizing state with
  | zero => exact absurd h (Nat.not_lt_zero _)
  | succ count ih =>
      rw [pullUpTo]
      cases hpull : lexer.pull state with
      | none => exact pullAll_of_none hpull
      | some pulled =>
          have hlt := weight_lt_of_pull hpull
          rw [pullAll_of_some hpull, ih (by omega)]

theorem run_eq_pullUpTo (lexer : Lexer κ) (source : String) :
    lexer.run source = lexer.pullUpTo (source.toList.length + 2) (.start source) :=
  pullAll_eq_pullUpTo (by simp [State.weight, State.start])

end Handheld.Lexer
