import Handheld.Proofs.Lexer.Tiling

namespace Handheld.Lexer

open Text

variable {κ : Type} {lexer : Lexer κ} {rules : List (κ × Pattern)} {ignored : List Pattern}

theorem ignoredLength_of_ne_nil {text : List Char} (h : text ≠ []) : ignoredLength ignored text =
    if ignoredInRound ignored text = 0 then 0
    else ignoredInRound ignored text +
      ignoredLength ignored (text.drop (ignoredInRound ignored text)) := by
  cases text with
  | nil => exact absurd rfl h
  | cons c text =>
      rw [ignoredLength]
      split <;> simp [*]

theorem firstMatch?_cons (rule : κ × Pattern) (rules : List (κ × Pattern)) (text : List Char) :
    firstMatch? (rule :: rules) text =
      match rule.2.matchLength? text with
      | some (count + 1) => some (rule.1, count + 1)
      | _ => firstMatch? rules text := by
  obtain ⟨kind, pattern⟩ := rule
  have hmatch : Matcher.matchLength? pattern text = pattern.matchLength? text := rfl
  simp only [firstMatch?, List.findSome?_cons, hmatch]
  cases pattern.matchLength? text with
  | none => rfl
  | some count => cases count <;> rfl

section Pulls

variable {text gap rest : List Char} {kind : κ} {count : Nat} {tokens : List (Token κ)}
  (hgap : text.take (ignoredLength lexer.ignored text) = gap)
  (hrest : text.drop (ignoredLength lexer.ignored text) = rest) (position : Position)

include hgap hrest

theorem skip_ignored : (⟨text, position, false⟩ : State).skip (ignoredLength lexer.ignored text) =
    ⟨rest, position.advance gap, false⟩ := by
  rw [State.skip, hgap, hrest]

theorem pullAll_of_end (hempty : rest = []) : lexer.pullAll ⟨text, position, false⟩ =
    (lexer.endMarker.map fun kind => (⟨kind, "", position.advance gap⟩ : Token κ)).toList.map .ok := by
  have hskip := skip_ignored hgap hrest position
  have hpull : lexer.pull ⟨text, position, false⟩ = lexer.endMarker.map fun kind =>
      (.ok ⟨kind, "", position.advance gap⟩, ⟨rest, position.advance gap, true⟩) := by
    simp [pull, hskip, hempty, State.finish]
  cases hmarker : lexer.endMarker with
  | none => exact pullAll_of_none (by rw [hpull, hmarker, Option.map_none])
  | some kind =>
      rw [hmarker] at hpull
      rw [pullAll_of_some hpull, pullAll_of_finished rfl]
      rfl

theorem pullAll_of_match (hne : rest ≠ []) (hfirst : firstMatch? lexer.rules rest = some (kind, count)) :
    lexer.pullAll ⟨text, position, false⟩ = .ok ⟨kind, .ofList (rest.take count), position.advance gap⟩ ::
      lexer.pullAll ⟨rest.drop count, (position.advance gap).advance (rest.take count), false⟩ := by
  have hskip := skip_ignored hgap hrest position
  have hpull : lexer.pull ⟨text, position, false⟩ =
      some (.ok ⟨kind, .ofList (rest.take count), position.advance gap⟩,
        ⟨rest.drop count, (position.advance gap).advance (rest.take count), false⟩) := by
    simp only [pull, Bool.false_eq_true, if_false, hskip, List.isEmpty_iff, hne, hfirst]
    rfl
  exact pullAll_of_some hpull

theorem pullAll_of_stuck (hne : rest ≠ []) (hfirst : firstMatch? lexer.rules rest = none) :
    lexer.pullAll ⟨text, position, false⟩ = [.error ⟨.ofList (rest.take 3), position.advance gap⟩] := by
  have hskip := skip_ignored hgap hrest position
  have hpull : lexer.pull ⟨text, position, false⟩ =
      some (.error ⟨.ofList (rest.take 3), position.advance gap⟩, ⟨rest, position.advance gap, true⟩) := by
    simp only [pull, Bool.false_eq_true, if_false, hskip, List.isEmpty_iff, hne, hfirst]
    rfl
  rw [pullAll_of_some hpull, pullAll_of_finished rfl]

-- A run that gives tokens alone has a first one, unless the text has come to its end.
theorem exists_of_pullAll (hne : rest ≠ [])
    (h : lexer.pullAll ⟨text, position, false⟩ = tokens.map .ok) : ∃ kind count more,
      firstMatch? lexer.rules rest = some (kind, count) ∧
        tokens = ⟨kind, .ofList (rest.take count), position.advance gap⟩ :: more ∧
          lexer.pullAll ⟨rest.drop count, (position.advance gap).advance (rest.take count), false⟩ =
            more.map .ok := by
  cases hfirst : firstMatch? lexer.rules rest with
  | none =>
      rw [pullAll_of_stuck hgap hrest position hne hfirst] at h
      obtain ⟨token, _, htoken⟩ := List.map_eq_singleton_iff.mp h.symm
      simp at htoken
  | some found =>
      obtain ⟨kind, count⟩ := found
      rw [pullAll_of_match hgap hrest position hne hfirst] at h
      obtain ⟨token, more, rfl, htoken, hmore⟩ := List.map_eq_cons_iff.mp h.symm
      obtain rfl := Except.ok.inj htoken
      exact ⟨kind, count, more, rfl, rfl, hmore.symm⟩

end Pulls

end Handheld.Lexer
