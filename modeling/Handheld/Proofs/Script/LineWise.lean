import Handheld.Proofs.Script.Passes
import Handheld.Script.Compiler
import Mathlib.Data.List.DropRight
import Mathlib.Data.List.Forall2

namespace Handheld

namespace Script

variable {c : Char} {line kept tail text : List Char} {source other : String}

-- A line up to its first two slashes.
def beforeComment (line : List Char) : List Char := line.take (line.tails.findIdx (['/', '/'].isPrefixOf ·))

-- A line up to its comment, without the blanks that it then ends with.
def cleanLine (line : List Char) : List Char := (beforeComment line).rdropWhile isBlank

theorem beforeComment_cons (c : Char) (line : List Char) : beforeComment (c :: line) =
    if c = '/' ∧ line.head? = some '/' then [] else c :: beforeComment line := by
  have htails : (c :: line).tails = (c :: line) :: line.tails := rfl
  have hprefix : ['/', '/'].isPrefixOf (c :: line) ↔ c = '/' ∧ line.head? = some '/' := by
    rw [List.isPrefixOf_iff_prefix, List.cons_prefix_cons, eq_comm]
    cases line with
    | nil => simp
    | cons d line => simp [List.cons_prefix_cons, eq_comm]
  rw [beforeComment, htails, List.findIdx_cons]
  by_cases hslashes : c = '/' ∧ line.head? = some '/'
  · rw [if_pos hslashes, hprefix.mpr hslashes]
    rfl
  · rw [if_neg hslashes, Bool.eq_false_iff.mpr (mt hprefix.mp hslashes)]
    rfl

theorem dropComments_eq_beforeComment (h : '\n' ∉ line) : dropComments false line = beforeComment line := by
  induction line with
  | nil => rfl
  | cons c line ih =>
      have hc := List.ne_of_not_mem_cons h
      have hline := List.not_mem_of_not_mem_cons h
      rw [beforeComment_cons]
      split
      · rename_i hslashes
        obtain ⟨rfl, hhead⟩ := hslashes
        obtain ⟨more, rfl⟩ := List.head?_eq_some_iff.mp hhead
        exact dropComments_true_line fun hmem => hline (List.mem_cons_of_mem _ hmem)
      · rename_i hslashes
        rw [dropComments_false_cons (Ne.symm hc) hslashes, ih hline]

theorem trimLineEnds_concat (hc : isBlank c) (text : List Char) :
    trimLineEnds (text ++ [c]) = trimLineEnds text := by
  induction text with
  | nil => simp [trimLineEnds, hc, atLineEnd]
  | cons d text ih => simp only [List.cons_append, trimLineEnds, ih]

theorem trimLineEnds_concat_of_not (hc : ¬ isBlank c) (h : '\n' ∉ line ++ [c]) :
    trimLineEnds (line ++ [c]) = line ++ [c] := by
  induction line with
  | nil => simp [trimLineEnds, hc]
  | cons d line ih =>
      rw [List.cons_append] at h ⊢
      have hline := List.not_mem_of_not_mem_cons h
      have hends : atLineEnd (line ++ [c]) = false := by
        cases hnext : line ++ [c] with
        | nil => simp at hnext
        | cons e more =>
            rw [hnext] at hline
            simpa using Ne.symm (List.ne_of_not_mem_cons hline)
      rw [trimLineEnds, ih hline, hends, Bool.and_false]
      rfl

theorem trimLineEnds_eq_rdropWhile (h : '\n' ∉ line) : trimLineEnds line = line.rdropWhile isBlank := by
  induction line using List.reverseRecOn with
  | nil => rfl
  | append_singleton line c ih =>
      by_cases hc : isBlank c
      · have hline : '\n' ∉ line := fun hmem => h (List.mem_append_left _ hmem)
        rw [trimLineEnds_concat hc, List.rdropWhile_concat_pos _ _ _ hc, ih hline]
      · rw [trimLineEnds_concat_of_not hc h, List.rdropWhile_concat_neg _ _ _ hc]

theorem stripped_eq_cleanLine (h : '\n' ∉ line) : stripped line = cleanLine line := by
  have hdrop := dropComments_isPrefix h
  rw [stripped, trimLineEnds_eq_rdropWhile fun hmem => h (hdrop.subset hmem),
    dropComments_eq_beforeComment h, cleanLine]

theorem map_stripped_splitOn (text : List Char) :
    (text.splitOn '\n').map stripped = (text.splitOn '\n').map cleanLine :=
  List.map_congr_left fun _ hline => stripped_eq_cleanLine (newline_notMem_of_mem_splitOn hline)

theorem stripped_eq_lineWise (text : List Char) :
    stripped text = ['\n'].intercalate ((text.splitOn '\n').map cleanLine) := by
  rw [stripped_eq_intercalate, map_stripped_splitOn]

-- There is no comment in what stands before a comment.
theorem beforeComment_of_isPrefix (h : kept <+: beforeComment line) : beforeComment kept = kept := by
  induction line generalizing kept with
  | nil =>
      obtain rfl := List.prefix_nil.mp h
      rfl
  | cons c line ih =>
      cases kept with
      | nil => rfl
      | cons d kept =>
          rw [beforeComment_cons] at h
          split at h
          · simp at h
          · rename_i hslashes
            obtain ⟨rfl, hkept⟩ := List.cons_prefix_cons.mp h
            obtain ⟨more, hmore⟩ : kept <+: line := hkept.trans (List.take_prefix _ line)
            rw [beforeComment_cons, ih hkept, if_neg]
            rintro ⟨hc, hhead⟩
            refine hslashes ⟨hc, ?_⟩
            rw [← hmore, List.head?_append, hhead, Option.some_or]

theorem cleanLine_isPrefix (line : List Char) : cleanLine line <+: line :=
  (List.rdropWhile_prefix isBlank _).trans (List.take_prefix _ line)

theorem cleanLine_cleanLine (line : List Char) : cleanLine (cleanLine line) = cleanLine line := by
  have hcomment : beforeComment (cleanLine line) = cleanLine line :=
    beforeComment_of_isPrefix (List.rdropWhile_prefix isBlank _)
  rw [cleanLine, hcomment, cleanLine, List.rdropWhile_idempotent]

theorem stripped_stripped (text : List Char) : stripped (stripped text) = stripped text := by
  have hlines : ((text.splitOn '\n').map stripped).map stripped = (text.splitOn '\n').map stripped := by
    rw [List.map_map]
    refine List.map_congr_left fun line hline => ?_
    have hbreak := newline_notMem_of_mem_splitOn hline
    rw [Function.comp_apply, stripped_eq_cleanLine (newline_notMem_stripped hbreak),
      stripped_eq_cleanLine hbreak, cleanLine_cleanLine]
  rw [stripped_eq_intercalate (stripped text), splitOn_stripped, hlines, ← stripped_eq_intercalate]

theorem stripped_concat (text : List Char) : stripped (text ++ ['\n']) = stripped text ++ ['\n'] := by
  induction text using line_induction with
  | last line hline => exact stripped_append hline []
  | cons line rest hline ih =>
      rw [List.append_assoc, List.cons_append, stripped_append hline, stripped_append hline, ih,
        List.append_assoc, List.cons_append]

theorem splitOn_concat (text : List Char) : (text ++ ['\n']).splitOn '\n' = text.splitOn '\n' ++ [[]] := by
  induction text using line_induction with
  | last line hline =>
      rw [List.splitOn_append_cons_self_of_not_mem hline, List.splitOn_eq_singleton hline]
      rfl
  | cons line rest hline ih =>
      rw [List.append_assoc, List.cons_append, List.splitOn_append_cons_self_of_not_mem hline, ih,
        List.splitOn_append_cons_self_of_not_mem hline, List.cons_append]

theorem endLastLine_endLastLine (text : List Char) : endLastLine (endLastLine text) = endLastLine text := by
  have hends : (endLastLine text).getLast? = some '\n' := by
    unfold endLastLine
    split
    · assumption
    · exact List.getLast?_concat
  rw [endLastLine, if_pos hends]

theorem stripped_endLastLine (text : List Char) :
    stripped (endLastLine (stripped text)) = endLastLine (stripped text) := by
  unfold endLastLine
  split
  · exact stripped_stripped text
  · rw [stripped_concat, stripped_stripped]

theorem cleanChars_cleanChars (text : List Char) : cleanChars (cleanChars text) = cleanChars text := by
  rw [cleanChars_eq, cleanChars_eq, stripped_endLastLine, endLastLine_endLastLine]

-- The lines of a cleaned text are the cleaned lines, and there is an empty line after a break that was added.
theorem splitOn_cleanChars (text : List Char) : (cleanChars text).splitOn '\n' =
    (text.splitOn '\n').map cleanLine ++ if (stripped text).getLast? = some '\n' then [] else [[]] := by
  have hlines : (stripped text).splitOn '\n' = (text.splitOn '\n').map cleanLine := by
    rw [splitOn_stripped, map_stripped_splitOn]
  rw [cleanChars_eq, endLastLine]
  split
  · rw [hlines, List.append_nil]
  · rw [splitOn_concat, hlines]

-- What may come at the end of a line without a trace: blanks, and a comment if there is a blank before it.
def IsTail (tail : List Char) : Prop := SaysNothing tail ∧ tail.head? ≠ some '/'

-- Two lines that differ in their tails at most.
def EndsAlike (line other : List Char) : Prop :=
  ∃ kept tail tail', IsTail tail ∧ IsTail tail' ∧ line = kept ++ tail ∧ other = kept ++ tail'

theorem isTail_of_blanks {blanks : List Char} (h : ∀ c ∈ blanks, isBlank c) : IsTail blanks := by
  refine ⟨⟨blanks, [], by simp, h, .inl rfl, by simp⟩, fun hhead => ?_⟩
  have hslash : isBlank '/' := h '/' (List.mem_of_head? hhead)
  exact absurd hslash (by decide)

theorem isTail_of_comment {blanks comment : List Char} (hne : blanks ≠ []) (h : ∀ c ∈ blanks, isBlank c)
    (hcomment : '\n' ∉ comment) : IsTail (blanks ++ '/' :: '/' :: comment) := by
  refine ⟨⟨blanks, '/' :: '/' :: comment, rfl, h, .inr ⟨comment, rfl⟩, by simp [hcomment]⟩, ?_⟩
  rw [List.head?_append_of_ne_nil _ hne]
  exact (isTail_of_blanks h).2

theorem SaysNothing.isBlank_of_mem (h : SaysNothing line) : ∀ c ∈ beforeComment line, isBlank c := by
  have hclean : cleanLine line = [] := by
    rw [← stripped_eq_cleanLine h.newline_notMem, h.stripped_eq_nil]
  exact List.rdropWhile_eq_nil_iff.mp hclean

-- The slashes of a comment cannot start in front of its tail.
theorem IsTail.exists_blanks (h : IsTail tail) (kept : List Char) : ∃ blanks : List Char,
    (∀ c ∈ blanks, isBlank c) ∧ beforeComment (kept ++ tail) = beforeComment kept ++ blanks := by
  induction kept with
  | nil => exact ⟨beforeComment tail, h.1.isBlank_of_mem, rfl⟩
  | cons c kept ih =>
      have hhead : (kept ++ tail).head? = some '/' ↔ kept.head? = some '/' := by
        cases kept with
        | nil => simp [h.2]
        | cons d kept => rfl
      obtain ⟨blanks, hblanks, htail⟩ := ih
      simp only [List.cons_append, beforeComment_cons, hhead, htail]
      by_cases hslashes : c = '/' ∧ kept.head? = some '/'
      · exact ⟨[], by simp, by simp [hslashes]⟩
      · exact ⟨blanks, hblanks, by rw [if_neg hslashes, if_neg hslashes, List.cons_append]⟩

theorem IsTail.cleanLine_append (h : IsTail tail) (kept : List Char) :
    cleanLine (kept ++ tail) = cleanLine kept := by
  obtain ⟨blanks, hblanks, hbefore⟩ := h.exists_blanks kept
  have hreverse : ∀ c ∈ blanks.reverse, isBlank c := fun c hc => hblanks c (List.mem_reverse.mp hc)
  rw [cleanLine, hbefore, List.rdropWhile, List.reverse_append, List.dropWhile_append_of_pos hreverse]
  rfl

theorem EndsAlike.cleanLine_eq {other : List Char} (h : EndsAlike line other) :
    cleanLine line = cleanLine other := by
  obtain ⟨kept, tail, tail', htail, htail', rfl, rfl⟩ := h
  rw [htail.cleanLine_append, htail'.cleanLine_append]

theorem clean_congr (h : List.Forall₂ EndsAlike (source.toList.splitOn '\n') (other.toList.splitOn '\n')) :
    clean other = clean source := by
  have hlines : (source.toList.splitOn '\n').map cleanLine = (other.toList.splitOn '\n').map cleanLine := by
    refine List.forall₂_eq_eq_eq ▸ List.forall₂_map_left_iff.mpr (List.forall₂_map_right_iff.mpr ?_)
    exact h.imp fun _ _ => EndsAlike.cleanLine_eq
  rw [clean, clean, cleanChars_eq, cleanChars_eq, stripped_eq_lineWise, stripped_eq_lineWise, hlines]

-- Two passes over the whole text, one for comments and one for blanks, do to each line by itself what they do,
-- and a second time they do nothing. What stands in a tail has no influence on tokens and their places.
theorem clean_lineWise (source : String) :
    (∃ dropped trimmed, Erases commentPattern source.toList dropped ∧ Erases blanksPattern dropped trimmed) ∧
    (∀ dropped trimmed, Erases commentPattern source.toList dropped →
      Erases blanksPattern dropped trimmed → (clean source).toList = endLastLine trimmed) ∧
    (clean source).toList =
      endLastLine (['\n'].intercalate ((source.toList.splitOn '\n').map cleanLine)) ∧
    clean (clean source) = clean source ∧
    (∃ lines added, (clean source).toList.splitOn '\n' = lines ++ added ∧
      List.Forall₂ (· <+: ·) lines (source.toList.splitOn '\n') ∧ (added = [] ∨ added = [[]])) ∧
    (∀ other : String, List.Forall₂ EndsAlike (source.toList.splitOn '\n') (other.toList.splitOn '\n') →
      clean other = clean source ∧ Compiler.tokens other = Compiler.tokens source) := by
  have hclean : (clean source).toList = endLastLine (stripped source.toList) := by
    rw [clean, String.toList_ofList, cleanChars_eq]
  refine ⟨?_, ?_, ?_, ?_, ?_, ?_⟩
  · exact ⟨_, _, erases_dropComments source.toList, erases_trimLineEnds _⟩
  · intro dropped trimmed hdropped htrimmed
    obtain rfl := erases_comment_iff.mp hdropped
    obtain rfl := erases_blanks_iff.mp htrimmed
    exact hclean
  · rw [hclean, stripped_eq_lineWise]
  · rw [clean, hclean, ← cleanChars_eq, cleanChars_cleanChars, clean]
  · rw [hclean, ← cleanChars_eq, splitOn_cleanChars]
    refine ⟨_, _, rfl, ?_, by split <;> simp⟩
    exact List.forall₂_map_left_iff.mpr (List.forall₂_same.mpr fun line _ => cleanLine_isPrefix line)
  · intro other hother
    have hsame := clean_congr hother
    exact ⟨hsame, by rw [Compiler.tokens, Compiler.tokens, hsame]⟩

theorem clean_lineWise_tails :
    List.Forall₂ EndsAlike ("goto on // x\n  clear".toList.splitOn '\n')
      ("goto on\t\n  clear // y /".toList.splitOn '\n') ∧
    clean "goto on\t\n  clear // y /" = clean "goto on // x\n  clear" ∧
    Compiler.tokens "goto on\t\n  clear // y /" = Compiler.tokens "goto on // x\n  clear" := by
  have hgoto : EndsAlike "goto on // x".toList "goto on\t".toList :=
    ⟨"goto on".toList, [' '] ++ '/' :: '/' :: [' ', 'x'], ['\t'],
      isTail_of_comment (by simp) (by simp [isBlank]) (by simp), isTail_of_blanks (by simp [isBlank]), rfl, rfl⟩
  have hclear : EndsAlike "  clear".toList "  clear // y /".toList :=
    ⟨"  clear".toList, [], [' '] ++ '/' :: '/' :: [' ', 'y', ' ', '/'],
      isTail_of_blanks (by simp), isTail_of_comment (by simp) (by simp [isBlank]) (by simp), rfl, rfl⟩
  have hlines : "goto on // x\n  clear".toList.splitOn '\n' = ["goto on // x".toList, "  clear".toList] := by
    decide +kernel
  have hothers : "goto on\t\n  clear // y /".toList.splitOn '\n' =
      ["goto on\t".toList, "  clear // y /".toList] := by
    decide +kernel
  have halike : List.Forall₂ EndsAlike ("goto on // x\n  clear".toList.splitOn '\n')
      ("goto on\t\n  clear // y /".toList.splitOn '\n') := by
    rw [hlines, hothers]
    exact .cons hgoto (.cons hclear .nil)
  exact ⟨halike, (clean_lineWise _).2.2.2.2.2 _ halike⟩

end Script

end Handheld
