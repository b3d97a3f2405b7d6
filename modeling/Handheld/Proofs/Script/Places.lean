import Mathlib
import Handheld.Proofs.Lexer.Places
import Handheld.Proofs.Script.Cleaning
import Handheld.Proofs.Script.Vocabulary
import Handheld.Proofs.ShiftReduce.Settling
import Handheld.Script.Compiler

namespace Handheld

open Text

namespace Script

-- Some text stands at a place of a source, or its first line does if it has more: the source has that line,
-- and from that column on the line begins with it. The column may be the one right after the line.
def ShowsAt (source : String) (position : Position) (shown : String) : Prop :=
  0 < position.line ∧ 0 < position.column ∧
    ∃ line, (source.toList.splitOn '\n')[position.line - 1]? = some line ∧
      position.column ≤ line.length + 1 ∧
        shown.toList.takeWhile (· ≠ '\n') <+: line.drop (position.column - 1)

theorem takeWhile_line {line : List Char} (h : '\n' ∉ line) : line.takeWhile (· ≠ '\n') = line := by
  refine List.takeWhile_eq_self_iff.mpr fun c hc => ?_
  simp only [ne_eq, decide_eq_true_eq]
  rintro rfl
  exact h hc

theorem takeWhile_append_break (text rest : List Char) :
    (text ++ '\n' :: rest).takeWhile (· ≠ '\n') = text.takeWhile (· ≠ '\n') := by
  induction text with
  | nil => rfl
  | cons c text ih => simp only [List.cons_append, List.takeWhile_cons, ih]

theorem takeWhile_isPrefix_append (text rest : List Char) :
    text.takeWhile (· ≠ '\n') <+: (text ++ rest).takeWhile (· ≠ '\n') := by
  rw [List.takeWhile_append]
  split
  · exact (List.takeWhile_prefix _).trans (List.prefix_append _ _)
  · exact List.prefix_refl _

theorem splitOn_first (text : List Char) :
    ∃ more, text.splitOn '\n' = text.takeWhile (· ≠ '\n') :: more := by
  by_cases hbreak : '\n' ∈ text
  · obtain ⟨line, rest, rfl, hline⟩ := List.eq_append_cons_of_mem hbreak
    rw [takeWhile_append_break, takeWhile_line hline, List.splitOn_append_cons_self_of_not_mem hline]
    exact ⟨_, rfl⟩
  · exact ⟨[], by rw [takeWhile_line hbreak, List.splitOn_eq_singleton hbreak]⟩

-- The line that goes on after some text.
theorem getElem?_splitOn_count (before after : List Char) :
    ((before ++ after).splitOn '\n')[before.count '\n']? =
      some ((before.reverse.takeWhile (· ≠ '\n')).reverse ++ after.takeWhile (· ≠ '\n')) := by
  induction before using line_induction with
  | last line hline =>
      obtain ⟨more, hmore⟩ := splitOn_first (line ++ after)
      have htake : (line ++ after).takeWhile (· ≠ '\n') = line ++ after.takeWhile (· ≠ '\n') := by
        rw [List.takeWhile_append, takeWhile_line hline, if_pos rfl]
      rw [hmore, htake, List.count_eq_zero.mpr hline, List.getElem?_cons_zero,
        takeWhile_line (fun hmem => hline (List.mem_reverse.mp hmem)), List.reverse_reverse]
  | cons line rest hline ih =>
      have hreverse : (line ++ '\n' :: rest).reverse = rest.reverse ++ '\n' :: line.reverse := by simp
      have hcount : (line ++ '\n' :: rest).count '\n' = rest.count '\n' + 1 := by
        simp [List.count_eq_zero.mpr hline]
      rw [List.append_assoc, List.cons_append, List.splitOn_append_cons_self_of_not_mem hline, hcount,
        List.getElem?_cons_succ, ih, hreverse, takeWhile_append_break]

-- What the cleaned text has after some place, up to the next line break, stands there in the source too.
theorem showsAt_of_clean {source : String} {before shown after : List Char}
    (htext : cleanChars source.toList = before ++ (shown ++ after)) (hshown : shown ≠ []) :
    ShowsAt source (.after before) (.ofList shown) := by
  -- The break that may have been added at the end is not before the place.
  obtain ⟨more, hmore, hline⟩ : ∃ more, stripped source.toList = before ++ more ∧
      (shown ++ after).takeWhile (· ≠ '\n') = more.takeWhile (· ≠ '\n') := by
    rw [cleanChars_eq, endLastLine] at htext
    split at htext
    · exact ⟨_, htext, rfl⟩
    · have hlength := congrArg List.length htext
      have hpositive := List.length_pos_iff.mpr hshown
      simp only [List.length_append, List.length_singleton] at hlength
      obtain ⟨more, hmore⟩ : before <+: stripped source.toList :=
        List.prefix_of_prefix_length_le ⟨_, htext.symm⟩ (List.prefix_append _ _) (by omega)
      rw [← hmore, List.append_assoc] at htext
      refine ⟨more, hmore.symm, ?_⟩
      rw [← List.append_cancel_left htext, takeWhile_append_break]
  have hplace := getElem?_splitOn_count before more
  rw [← hmore, splitOn_stripped, List.getElem?_map] at hplace
  obtain ⟨line, hline', hstripped⟩ := Option.map_eq_some_iff.mp hplace
  have hbreak : '\n' ∉ line := newline_notMem_of_mem_splitOn (List.mem_of_getElem? hline')
  obtain ⟨tail, htail⟩ := stripped_isPrefix hbreak
  rw [hstripped, ← hline] at htail
  have hcolumn : (Position.after before).column =
      (before.reverse.takeWhile (· ≠ '\n')).reverse.length + 1 := by
    rw [List.length_reverse, Nat.add_comm]
    rfl
  refine ⟨by simp [Position.after], by simp [hcolumn], line, by simpa [Position.after] using hline', ?_, ?_⟩
  · rw [← htail, hcolumn, List.append_assoc, List.length_append]
    omega
  · rw [← htail, hcolumn, Nat.add_sub_cancel, List.append_assoc, List.drop_left, String.toList_ofList]
    exact (takeWhile_isPrefix_append shown after).trans (List.prefix_append _ _)

end Script

namespace Compiler

variable {source : String}

theorem showsAt_of_mem_run {out : Except LexicalError (Token String)}
    (hout : out ∈ Script.lexer.run (Script.clean source))
    (hmarker : ∀ position, out ≠ .ok ⟨endMarker, "", position⟩) :
    Script.ShowsAt source (Lexer.placeOf out) (.ofList (Lexer.textOf out)) := by
  rcases (Script.lexer.tiling_run (Script.clean source)).exists_textOf out hout with
    ⟨kind, position, hkind, rfl⟩ | ⟨before, after, htext, hne, hplace⟩
  · obtain rfl : endMarker = kind := Option.some.inj hkind
    exact absurd rfl (hmarker position)
  · rw [hplace]
    exact Script.showsAt_of_clean (by simpa [Script.clean] using htext) hne

theorem showsAt_of_error {error : LexicalError}
    (herror : .error error ∈ Script.lexer.run (Script.clean source)) :
    Script.ShowsAt source error.position error.snippet := by
  simpa [Lexer.textOf, Lexer.placeOf] using showsAt_of_mem_run herror (by simp)

theorem lexical_of_program {compiler : Compiler} {error : LexicalError}
    (h : compiler.program source = .error (.lexical error)) :
    compiler.parseTree source = .error (.lexical error) := by
  unfold program at h
  rcases bind_eq_error_iff.mp h with htree | ⟨tree, _, hprogram⟩
  · exact htree
  · obtain ⟨_, _, heq⟩ := mapError_eq_error_iff.mp hprogram
    simp at heq

theorem mem_run_of_parseTree {compiler : Compiler} {error : LexicalError}
    (h : compiler.parseTree source = .error (.lexical error)) :
    .error error ∈ Script.lexer.run (Script.clean source) := by
  obtain ⟨found, hparse, heq⟩ := mapError_eq_error_iff.mp h
  cases found with
  | lexical lexical =>
      obtain rfl : lexical = error := by simpa [ofParseError] using heq
      exact Tables.mem_of_parse_lexical hparse
  | unexpected | unexpectedEnd | endless => simp [ofParseError] at heq

-- Places are places of the source as it was written: each token but the end marker stands there, and so does
-- the text at which the lexer gives up, however the error is come by.
theorem tokens_showAt (source : String) :
    (∀ tokens, Compiler.tokens source = .ok tokens → ∀ token ∈ tokens, token.kind ≠ endMarker →
      Script.ShowsAt source token.position token.lexeme) ∧
    (∀ error, Compiler.tokens source = .error (.lexical error) →
      Script.ShowsAt source error.position error.snippet) ∧
    ∀ (compiler : Compiler) (error : LexicalError),
      compiler.parseTree source = .error (.lexical error) ∨
        compiler.program source = .error (.lexical error) →
      Script.ShowsAt source error.position error.snippet := by
  have hlexes := Script.lexes_tokens (Script.clean source)
  refine ⟨fun tokens htokens token htoken hkind => ?_, fun error herror => ?_,
    fun compiler error herror => ?_⟩
  · rw [mapError_eq_ok_iff.mp htokens] at hlexes
    cases hlexes with
    | ok hrun _ _ =>
        have hout : .ok token ∈ Script.lexer.run (Script.clean source) := by
          rw [hrun]
          exact List.mem_map_of_mem htoken
        have hshows := showsAt_of_mem_run hout fun position heq => hkind (by rw [Except.ok.inj heq])
        simpa [Lexer.textOf, Lexer.placeOf] using hshows
  · obtain ⟨found, hfound, heq⟩ := mapError_eq_error_iff.mp herror
    obtain rfl := CompileError.lexical.inj heq
    rw [hfound] at hlexes
    cases hlexes with
    | error hrun _ => exact showsAt_of_error (by simp [hrun])
  · have htree := herror.elim id lexical_of_program
    exact showsAt_of_error (mem_run_of_parseTree htree)

theorem tokens_goto_comment : tokens "goto // on" =
    .ok [⟨"goto", "goto", ⟨1, 1⟩⟩, ⟨"newline", "\n", ⟨1, 5⟩⟩, ⟨endMarker, "", ⟨2, 1⟩⟩] := by
  rw [tokens, Lexer.tokens, Lexer.run_eq_pullUpTo]
  cbv

theorem tokens_comment_star : tokens " // on\n *" = .error (.lexical ⟨"*\n", ⟨2, 2⟩⟩) := by
  rw [tokens, Lexer.tokens, Lexer.run_eq_pullUpTo]
  cbv

theorem tokens_showAt_comments :
    Script.ShowsAt "goto // on" ⟨1, 1⟩ "goto" ∧ Script.ShowsAt " // on\n *" ⟨2, 2⟩ "*\n" :=
  ⟨(tokens_showAt "goto // on").1 _ tokens_goto_comment ⟨"goto", "goto", ⟨1, 1⟩⟩ (by simp) (by decide),
    (tokens_showAt " // on\n *").2.1 _ tokens_comment_star⟩

end Compiler

end Handheld
