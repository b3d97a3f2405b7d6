import Handheld.Proofs.Lexer.Pulls
import Handheld.Proofs.Pattern.Doubling

namespace Handheld

open Text

theorem Text.Position.line_advance (position : Position) (read : List Char) :
    (position.advance read).line = position.line + read.count '\n' := by
  induction read generalizing position with
  | nil => rfl
  | cons c read ih =>
      have hstep : (position.step c).line = position.line + if c = '\n' then 1 else 0 := by
        unfold Position.step
        split <;> rfl
      change ((position.step c).advance read).line = _
      rw [ih, hstep, List.count_cons, Nat.add_assoc, Nat.add_comm (read.count '\n')]
      simp only [beq_iff_eq]

namespace Lexer

variable {κ : Type} {lexer : Lexer κ} {rules : List (κ × Pattern)} {ignored : List Pattern} {c : Char}
  {line : Nat}

-- A doubled character is taken by the token that takes the single one.
structure Elastic (lexer : Lexer κ) (c : Char) : Prop where
  rules : ∀ rule ∈ lexer.rules, rule.2.Elastic c
  ignored : ∀ pattern ∈ lexer.ignored, ∀ cls ∈ pattern.classes, ¬ cls.contains c

-- A token of some text and the one in its place when a character is doubled that stands on a line, before
-- the text after it. One that takes the character has it twice.
inductive Doubled (c : Char) (line : Nat) (after : List Char) : Token κ → Token κ → Prop
  | same (kind : κ) (lexeme : String) (position position' : Position) :
      Doubled c line after ⟨kind, lexeme, position⟩ ⟨kind, lexeme, position'⟩
  | twice {kind : κ} {above below : List Char} {position : Position} (position' : Position) :
      position.line + above.count '\n' = line → below <+: after →
      Doubled c line after ⟨kind, .ofList (above ++ c :: below), position⟩
        ⟨kind, .ofList (above ++ c :: c :: below), position'⟩

theorem ignoredInRound_append_cons (h : ∀ pattern ∈ ignored, ∀ cls ∈ pattern.classes, ¬ cls.contains c)
    (before after after' : List Char) :
    ignoredInRound ignored (before ++ c :: after) = ignoredInRound ignored (before ++ c :: after') ∧
      ignoredInRound ignored (before ++ c :: after) ≤ before.length := by
  induction ignored generalizing before with
  | nil => exact ⟨rfl, Nat.zero_le _⟩
  | cons pattern ignored ih =>
      obtain ⟨hpattern, hignored⟩ := List.forall_mem_cons.mp h
      obtain ⟨hmatch, hle⟩ := Pattern.matchLength?_append_cons (Pattern.notMem_of_spells hpattern)
        before after after'
      have hcount : ((Matcher.matchLength? pattern (before ++ c :: after)).getD 0) ≤ before.length := by
        cases hfound : Matcher.matchLength? pattern (before ++ c :: after) with
        | none => exact Nat.zero_le _
        | some count => exact hle count hfound
      have heq : Matcher.matchLength? pattern (before ++ c :: after) =
          Matcher.matchLength? pattern (before ++ c :: after') := hmatch
      simp only [ignoredInRound, ← heq]
      generalize (Matcher.matchLength? pattern (before ++ c :: after)).getD 0 = count at hcount
      rw [List.drop_append_of_le_length hcount, List.drop_append_of_le_length hcount]
      obtain ⟨hround, hle'⟩ := ih hignored (before.drop count)
      rw [List.length_drop] at hle'
      exact ⟨by rw [hround], by omega⟩

theorem ignoredLength_append_cons (h : ∀ pattern ∈ ignored, ∀ cls ∈ pattern.classes, ¬ cls.contains c)
    (before after after' : List Char) :
    ignoredLength ignored (before ++ c :: after) = ignoredLength ignored (before ++ c :: after') ∧
      ignoredLength ignored (before ++ c :: after) ≤ before.length := by
  induction hlength : before.length using Nat.strongRecOn generalizing before with
  | ind length ih =>
      obtain ⟨hround, hle⟩ := ignoredInRound_append_cons h before after after'
      have hne (after : List Char) : before ++ c :: after ≠ [] := by simp
      rw [ignoredLength_of_ne_nil (hne after), ignoredLength_of_ne_nil (hne after'), ← hround]
      generalize ignoredInRound ignored (before ++ c :: after) = count at hle
      by_cases hcount : count = 0
      · simp [hcount]
      · have hdrop : (before.drop count).length = before.length - count := List.length_drop
        obtain ⟨hrest, hle'⟩ := ih (before.drop count).length (by omega) (before.drop count) rfl
        rw [if_neg hcount, if_neg hcount, List.drop_append_of_le_length hle,
          List.drop_append_of_le_length hle, hrest]
        exact ⟨rfl, by omega⟩

-- The separating text before a character that does not separate is settled before it.
theorem exists_gap (h : ∀ pattern ∈ ignored, ∀ cls ∈ pattern.classes, ¬ cls.contains c)
    (before : List Char) : ∃ gap more, before = gap ++ more ∧ ∀ after,
      (before ++ c :: after).take (ignoredLength ignored (before ++ c :: after)) = gap ∧
        (before ++ c :: after).drop (ignoredLength ignored (before ++ c :: after)) = more ++ c :: after := by
  obtain ⟨_, hle⟩ := ignoredLength_append_cons h before [] []
  refine ⟨before.take (ignoredLength ignored (before ++ [c])),
    before.drop (ignoredLength ignored (before ++ [c])), by simp, fun after => ?_⟩
  rw [(ignoredLength_append_cons h before after []).1]
  exact ⟨List.take_append_of_le_length hle, List.drop_append_of_le_length hle⟩

theorem firstMatch?_double (h : ∀ rule ∈ rules, rule.2.Elastic c) (before after : List Char) :
    (firstMatch? rules (before ++ c :: c :: after) = firstMatch? rules (before ++ c :: after) ∧
      ∀ found ∈ firstMatch? rules (before ++ c :: after), found.2 ≤ before.length) ∨
    ∃ kind count, before.length < count ∧
      firstMatch? rules (before ++ c :: after) = some (kind, count) ∧
        firstMatch? rules (before ++ c :: c :: after) = some (kind, count + 1) := by
  induction rules with
  | nil => exact .inl ⟨rfl, by simp [firstMatch?]⟩
  | cons rule rules ih =>
      obtain ⟨hrule, hrules⟩ := List.forall_mem_cons.mp h
      have hstretched := hrule before after
      rw [firstMatch?_cons, firstMatch?_cons]
      generalize rule.2.matchLength? (before ++ c :: after) = found at hstretched
      generalize rule.2.matchLength? (before ++ c :: c :: after) = found' at hstretched
      cases hstretched with
      | same hle =>
          obtain _ | _ | count := found
          · exact ih hrules
          · exact ih hrules
          · exact .inl ⟨rfl, by simpa using hle _ rfl⟩
      | @longer count hlt =>
          cases count with
          | zero => exact absurd hlt (Nat.not_lt_zero _)
          | succ count => exact .inr ⟨rule.1, count + 1, hlt, rfl, rfl⟩

-- From another place the same text gives the same tokens.
theorem pullAll_moved (c : Char) (line : Nat) (after : List Char) {text : List Char} {position : Position}
    {tokens : List (Token κ)} (h : lexer.pullAll ⟨text, position, false⟩ = tokens.map .ok)
    (position' : Position) : ∃ tokens', lexer.pullAll ⟨text, position', false⟩ = tokens'.map .ok ∧
      List.Forall₂ (Doubled c line after) tokens tokens' := by
  induction hlength : text.length using Nat.strongRecOn generalizing text position position' tokens with
  | ind length ih =>
      obtain ⟨gap, rest, hgap, hrest⟩ : ∃ gap rest, text.take (ignoredLength lexer.ignored text) = gap ∧
          text.drop (ignoredLength lexer.ignored text) = rest := ⟨_, _, rfl, rfl⟩
      by_cases hempty : rest = []
      · refine ⟨_, pullAll_of_end hgap hrest position' hempty, ?_⟩
        rw [pullAll_of_end hgap hrest position hempty] at h
        obtain rfl := (List.map_inj_right fun _ _ => Except.ok.inj).mp h
        cases lexer.endMarker with
        | none => exact .nil
        | some kind => exact .cons (.same ..) .nil
      · obtain ⟨kind, count, more, hfirst, rfl, hmore⟩ := exists_of_pullAll hgap hrest position hempty h
        have hshort : (rest.drop count).length < length := by
          have hpositive := firstMatch?_pos hfirst
          have hrest_pos := List.length_pos_iff.mpr hempty
          rw [List.length_drop, ← hrest, List.length_drop]
          rw [← hrest, List.length_drop] at hrest_pos
          omega
        obtain ⟨tokens', hpulled, hdoubled⟩ := ih _ hshort hmore
          ((position'.advance gap).advance (rest.take count)) rfl
        refine ⟨⟨kind, .ofList (rest.take count), position'.advance gap⟩ :: tokens', ?_, ?_⟩
        · rw [pullAll_of_match hgap hrest position' hempty hfirst, hpulled, List.map_cons]
        · exact .cons (.same ..) hdoubled

-- When a character of the text is doubled, one token is given for another.
theorem pullAll_double (helastic : lexer.Elastic c) {before : List Char} (after : List Char)
    {position : Position} {tokens : List (Token κ)}
    (h : lexer.pullAll ⟨before ++ c :: after, position, false⟩ = tokens.map .ok) (position' : Position) :
    ∃ tokens', lexer.pullAll ⟨before ++ c :: c :: after, position', false⟩ = tokens'.map .ok ∧
      List.Forall₂ (Doubled c (position.line + before.count '\n') after) tokens tokens' := by
  induction hlength : before.length using Nat.strongRecOn
    generalizing before position position' tokens with
  | ind length ih =>
      obtain ⟨gap, more, rfl, hsplit⟩ := exists_gap helastic.ignored before
      obtain ⟨hgap, hrest⟩ := hsplit after
      obtain ⟨hgap', hrest'⟩ := hsplit (c :: after)
      obtain ⟨kind, count, tokens, hfirst, rfl, hpulls⟩ :=
        exists_of_pullAll hgap hrest position (by simp) h
      have hline : (position.advance gap).line + more.count '\n' =
          position.line + (gap ++ more).count '\n' := by
        rw [Position.line_advance, List.count_append, Nat.add_assoc]
      rw [← hline]
      rcases firstMatch?_double helastic.rules more after with
        ⟨hsame, hends⟩ | ⟨_, _, hlt, hfound, hfirst'⟩
      · -- the token ends before the character
        rw [hfirst] at hsame
        have hcount : count ≤ more.length := hends _ hfirst
        have hpositive := firstMatch?_pos hfirst
        obtain ⟨lexeme, rest, rfl, rfl⟩ : ∃ lexeme rest, more = lexeme ++ rest ∧ lexeme.length = count :=
          ⟨more.take count, more.drop count, by simp, List.length_take_of_le hcount⟩
        simp only [List.append_assoc, List.take_left, List.drop_left] at hpulls ⊢
        obtain ⟨tokens', hpulled, hdoubled⟩ := ih rest.length
          (by simp only [← hlength, List.length_append]; omega) hpulls
          ((position'.advance gap).advance lexeme) rfl
        refine ⟨⟨kind, .ofList lexeme, position'.advance gap⟩ :: tokens', ?_, .cons (.same ..) ?_⟩
        · have hmatch := pullAll_of_match hgap' hrest' position' (by simp) hsame
          simp only [List.append_assoc, List.take_left, List.drop_left] at hmatch
          rw [hmatch, hpulled, List.map_cons]
        · rwa [List.count_append, ← Nat.add_assoc, ← Position.line_advance]
      · -- the token takes the character
        obtain ⟨rfl, rfl⟩ := by simpa using hfirst.symm.trans hfound
        obtain ⟨taken, rfl⟩ := Nat.exists_eq_add_of_lt hlt
        have hmatch := pullAll_of_match hgap' hrest' position' (by simp) hfirst'
        simp only [List.take_length_add_append, List.drop_length_add_append, Nat.add_assoc,
          List.take_succ_cons, List.drop_succ_cons] at hpulls hmatch ⊢
        obtain ⟨tokens', hpulled, hdoubled⟩ := pullAll_moved c _ after hpulls
          ((position'.advance gap).advance (more ++ c :: c :: after.take taken))
        refine ⟨⟨kind, .ofList (more ++ c :: c :: after.take taken), position'.advance gap⟩ :: tokens',
          ?_, .cons (.twice _ rfl (List.take_prefix _ _)) hdoubled⟩
        rw [hmatch, hpulled, List.map_cons]

end Lexer

end Handheld
