import Handheld.Game.Button
import Handheld.Proofs.Game.ShapeText
import Handheld.Proofs.Lexer
import Handheld.Script.Vocabulary

namespace Handheld.Script

variable {token : Token String}

-- What is asked of the texts of some tokens after they have been parsed.
structure Wellspelled (token : Token String) : Prop where
  shape : token.kind = "shape" → ∃ shape, Shape.read token.lexeme = .ok shape
  handler : token.kind = "handler-name" → ∃ button, Button.ofLabel? token.lexeme = some button

theorem kind_ne_endMarker (h : lexer.ReadBy token) : token.kind ≠ endMarker := by
  obtain ⟨pattern, hmem, _⟩ := h
  have hkinds : ∀ entry ∈ rules, entry.1 ≠ endMarker := by decide
  exact hkinds _ hmem

theorem forall_kind_ne_endMarker {tokens : List (Token String)}
    (h : ∀ token ∈ tokens, lexer.ReadBy token) : ∀ token ∈ tokens, token.kind ≠ endMarker :=
  fun token htoken => kind_ne_endMarker (h token htoken)

theorem exists_shape (h : lexer.ReadBy token) (hkind : token.kind = "shape") :
    ∃ shape, Shape.read token.lexeme = .ok shape := by
  obtain ⟨pattern, hmem, hspells⟩ := h
  rw [hkind] at hmem
  obtain rfl := by simpa [lexer, rules] using hmem
  refine Shape.exists_read_iff.mpr fun c hc => ?_
  obtain ⟨cls, hcls, hcontains⟩ := Pattern.contains_of_spells hspells c (Shape.mem_of_mem_trim hc)
  have hchars : c ∈ ['.', '#', '+', '\n'] := by
    rcases (by simpa [Pattern.classes, Pattern.many] using hcls : cls = _ ∨ cls = _) with rfl | rfl
    · have hpixel := CharClass.contains_ofChars_iff.mp hcontains
      exact List.mem_append_left ['\n'] hpixel
    · exact CharClass.contains_ofChars_iff.mp hcontains
  rcases (by simpa using hchars : c = _ ∨ c = _ ∨ c = _ ∨ c = _) with rfl | rfl | rfl | rfl
  all_goals simp [Shape.InShape]

theorem exists_button (h : lexer.ReadBy token) (hkind : token.kind = "handler-name") :
    ∃ button, Button.ofLabel? token.lexeme = some button := by
  obtain ⟨pattern, hmem, hspells⟩ := h
  rw [hkind] at hmem
  obtain rfl := by simpa [lexer, rules] using hmem
  generalize htext : token.lexeme.toList = text at hspells
  cases hspells with
  | @seq _ _ sign label hsign hlabel =>
      obtain ⟨branch, hbranch, hlabel⟩ := Pattern.exists_of_spells_choice hlabel (by decide)
      obtain ⟨name, hname, rfl⟩ := List.mem_map.mp hbranch
      rw [Pattern.eq_of_spells_text hsign, Pattern.eq_of_spells_text hlabel, ← String.toList_append,
        String.toList_inj] at htext
      rw [htext]
      have hlabels : ∀ name ∈ buttonLabels, (Button.ofLabel? ("@" ++ name)).isSome := by decide
      exact Option.isSome_iff_exists.mp (hlabels name hname)

theorem wellspelled_of_readBy (h : lexer.ReadBy token) : Wellspelled token :=
  ⟨exists_shape h, exists_button h⟩

-- Only spaces and tabs are ignored, so the first token stands on the first line.
theorem line_of_first {source : String} {outs : List (Except LexicalError (Token String))}
    (h : lexer.run source = .ok token :: outs) : token.position.line = 1 := by
  have htiling := lexer.tiling_run source
  rw [h] at htiling
  obtain ⟨gap, rest, hgap, hposition⟩ := htiling.exists_gap
  have hbreak : '\n' ∉ gap := by
    intro hmem
    obtain ⟨pattern, hpattern, cls, hcls, hcontains⟩ := hgap.skips.exists_contains '\n' hmem
    obtain rfl := List.mem_singleton.mp hpattern
    obtain rfl := List.mem_singleton.mp hcls
    exact absurd hcontains (by decide)
  rw [hposition, List.nil_append, Text.Position.after, List.count_eq_zero.mpr hbreak]

-- What the lexer makes of a script: tokens and the end marker after them, or tokens and an error.
inductive Lexes (source : String) : Except LexicalError (List (Token String)) → Prop
  | ok {tokens : List (Token String)} {last : Token String} :
      lexer.run source = (tokens ++ [last]).map .ok → (∀ token ∈ tokens, lexer.ReadBy token) →
      last.kind = endMarker → Lexes source (.ok (tokens ++ [last]))
  | error {tokens : List (Token String)} {error : LexicalError} :
      lexer.run source = tokens.map .ok ++ [.error error] → (∀ token ∈ tokens, lexer.ReadBy token) →
      Lexes source (.error error)

theorem Lexes.of_ok {source : String} {tokens : List (Token String)} {last : Token String}
    (h : Lexes source (.ok (tokens ++ [last]))) : lexer.run source = (tokens ++ [last]).map .ok ∧
      (∀ token ∈ tokens, lexer.ReadBy token) ∧ last.kind = endMarker := by
  generalize hall : tokens ++ [last] = all at h
  cases h with
  | ok hrun hread hlast =>
      obtain ⟨rfl, rfl⟩ := by simpa using hall
      exact ⟨hrun, hread, hlast⟩

theorem lexes_tokens (source : String) : Lexes source (lexer.tokens source) := by
  have hend : lexer.endMarker = some endMarker := rfl
  obtain ⟨tokens, last, hrun, hread, ⟨position, rfl⟩ | ⟨error, rfl⟩⟩ :=
    (lexer.tiling_run source).exists_tokens hend
  · let last : Token String := ⟨endMarker, "", position⟩
    have hall : lexer.run source = (tokens ++ [last]).map .ok := by simp [hrun, last]
    rw [Lexer.tokens, hall, mapM_id_map_ok]
    exact .ok hall hread rfl
  · rw [Lexer.tokens, hrun, mapM_id_of_error]
    exact .error hrun hread

theorem readBy_of_run {source : String} {tokens : List (Token String)} {last : Token String}
    (h : lexer.run source = (tokens ++ [last]).map .ok) :
    (∀ token ∈ tokens, lexer.ReadBy token) ∧ last.kind = endMarker := by
  have hlexes := lexes_tokens source
  rw [Lexer.tokens, h, mapM_id_map_ok] at hlexes
  exact hlexes.of_ok.2

end Handheld.Script
