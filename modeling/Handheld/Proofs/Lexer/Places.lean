import Handheld.Proofs.Lexer.Tiling

namespace Handheld

open Text

namespace Text.Position

-- The order in which a text is read: by lines, then by columns.
instance : LT Position where
  lt first second := first.line < second.line ∨ (first.line = second.line ∧ first.column < second.column)

theorem lt_iff {first second : Position} : first < second ↔
    first.line < second.line ∨ (first.line = second.line ∧ first.column < second.column) := Iff.rfl

theorem lt_trans {first second third : Position} (h : first < second) (h' : second < third) :
    first < third := by
  rw [lt_iff] at *
  omega

theorem lt_step (position : Position) (c : Char) : position < position.step c := by
  rw [lt_iff, step]
  split <;> simp

theorem lt_advance {read : List Char} (position : Position) (h : read ≠ []) :
    position < position.advance read := by
  induction read generalizing position with
  | nil => exact absurd rfl h
  | cons c read ih =>
      cases read with
      | nil => exact lt_step position c
      | cons c' read => exact lt_trans (lt_step position c) (ih (position.step c) (by simp))

theorem after_lt_after (read : List Char) {more : List Char} (h : more ≠ []) :
    Position.after read < .after (read ++ more) := by
  rw [← advance_after]
  exact lt_advance _ h

end Text.Position

namespace Lexer

variable {κ π : Type} [Matcher π] {lexer : Lexer κ π} {read text : List Char}
  {outs : List (Except LexicalError (Token κ))}

-- Where something that a lexer has given stands in the text.
def placeOf : Except LexicalError (Token κ) → Position
  | .ok token => token.position
  | .error error => error.position

-- Nothing is placed before the text that is still to be read.
theorem Tiling.exists_placeOf (h : Tiling lexer read text outs) :
    ∀ out ∈ outs, ∃ more, placeOf out = .after (read ++ more) := by
  induction h with
  | @token read gap lexeme rest kind outs _ _ _ ih =>
      refine List.forall_mem_cons.mpr ⟨⟨gap, rfl⟩, fun out hout => ?_⟩
      obtain ⟨more, hmore⟩ := ih out hout
      exact ⟨gap ++ lexeme ++ more, by rw [hmore]; simp⟩
  | @finished read gap =>
      intro out hout
      obtain ⟨kind, _, rfl⟩ := by simpa using hout
      exact ⟨gap, rfl⟩
  | @stuck read gap =>
      intro out hout
      obtain rfl := List.mem_singleton.mp hout
      exact ⟨gap, rfl⟩

-- Each token has text, so what comes after it stands further on.
theorem Tiling.pairwise_placeOf (h : Tiling lexer read text outs) :
    outs.Pairwise fun first second => placeOf first < placeOf second := by
  induction h with
  | @token read gap lexeme rest kind outs _ hfirst htiling ih =>
      refine List.pairwise_cons.mpr ⟨fun out hout => ?_, ih⟩
      obtain ⟨more, hmore⟩ := htiling.exists_placeOf out hout
      obtain ⟨_, _, _, _, ⟨hlexeme, _⟩, _⟩ := hfirst
      rw [hmore, List.append_assoc (read ++ gap)]
      exact Position.after_lt_after (read ++ gap) (by simp [hlexeme])
  | finished => cases lexer.endMarker <;> simp
  | stuck => exact List.pairwise_singleton _ _

-- The text of the source that something a lexer has given comes with.
def textOf : Except LexicalError (Token κ) → List Char
  | .ok token => token.lexeme.toList
  | .error error => error.snippet.toList

-- All but the end marker comes with text that stands in its place.
theorem Tiling.exists_textOf (h : Tiling lexer read text outs) : ∀ out ∈ outs,
    (∃ kind position, lexer.endMarker = some kind ∧ out = .ok ⟨kind, "", position⟩) ∨
      ∃ before after, read ++ text = before ++ (textOf out ++ after) ∧ textOf out ≠ [] ∧
        placeOf out = .after before := by
  induction h with
  | @token read gap lexeme rest kind outs _ hfirst _ ih =>
      obtain ⟨_, _, _, _, ⟨hlexeme, _⟩, _⟩ := hfirst
      refine List.forall_mem_cons.mpr ⟨.inr ⟨read ++ gap, rest, ?_, ?_, rfl⟩, fun out hout => ?_⟩
      · simp [textOf]
      · simpa [textOf] using hlexeme
      · refine (ih out hout).imp_right ?_
        rintro ⟨before, after, htext, hrest⟩
        exact ⟨before, after, by simpa using htext, hrest⟩
  | @finished read gap =>
      intro out hout
      obtain ⟨kind, hkind, rfl⟩ := by simpa using hout
      exact .inl ⟨kind, _, hkind, rfl⟩
  | @stuck read gap rest _ hne _ =>
      intro out hout
      obtain rfl := List.mem_singleton.mp hout
      refine .inr ⟨read ++ gap, rest.drop 3, by simp [textOf], ?_, rfl⟩
      cases rest with
      | nil => exact absurd rfl hne
      | cons c rest => simp [textOf]

end Lexer

end Handheld
