import Handheld.Script.Source
import Mathlib.Data.List.Induction

namespace Handheld.Script

variable {c : Char} {line text rest before after : List Char} {source : String}

-- A text is its last line, or a line with its break before the rest of the text.
theorem line_induction {P : List Char → Prop} (last : ∀ line, '\n' ∉ line → P line)
    (cons : ∀ line rest, '\n' ∉ line → P rest → P (line ++ '\n' :: rest)) (text : List Char) : P text := by
  induction hlength : text.length using Nat.strongRecOn generalizing text with
  | ind length ih =>
      by_cases hbreak : '\n' ∈ text
      · obtain ⟨line, rest, rfl, hline⟩ := List.eq_append_cons_of_mem hbreak
        refine cons line rest hline (ih rest.length ?_ rest rfl)
        simp only [← hlength, List.length_append, List.length_cons]
        omega
      · exact last text hbreak

theorem newline_notMem_of_mem_splitOn (h : line ∈ text.splitOn '\n') : '\n' ∉ line := by
  induction text using line_induction with
  | last text htext =>
      rw [List.splitOn_eq_singleton htext] at h
      obtain rfl := List.mem_singleton.mp h
      exact htext
  | cons first rest hfirst ih =>
      rw [List.splitOn_append_cons_self_of_not_mem hfirst] at h
      rcases List.mem_cons.mp h with rfl | hrest
      · exact hfirst
      · exact ih hrest

theorem dropComments_true_cons (hc : c ≠ '\n') (rest : List Char) :
    dropComments true (c :: rest) = dropComments true rest := by
  rw [dropComments.eq_def]
  split <;> simp_all

theorem dropComments_false_cons (hc : c ≠ '\n') (hslashes : ¬ (c = '/' ∧ rest.head? = some '/')) :
    dropComments false (c :: rest) = c :: dropComments false rest := by
  rw [dropComments.eq_def]
  split <;> simp_all

theorem dropComments_true_line (h : '\n' ∉ line) : dropComments true line = [] := by
  induction line with
  | nil => rfl
  | cons c line ih =>
      have hc := List.ne_of_not_mem_cons h
      have hline := List.not_mem_of_not_mem_cons h
      rw [dropComments_true_cons (Ne.symm hc), ih hline]

theorem dropComments_true_append (h : '\n' ∉ line) (rest : List Char) :
    dropComments true (line ++ '\n' :: rest) = '\n' :: dropComments false rest := by
  induction line with
  | nil => rfl
  | cons c line ih =>
      have hc := List.ne_of_not_mem_cons h
      have hline := List.not_mem_of_not_mem_cons h
      rw [List.cons_append, dropComments_true_cons (Ne.symm hc), ih hline]

theorem dropComments_false_append (h : '\n' ∉ line) (rest : List Char) :
    dropComments false (line ++ '\n' :: rest) = dropComments false line ++ '\n' :: dropComments false rest := by
  induction line with
  | nil => rfl
  | cons c line ih =>
      have hc := List.ne_of_not_mem_cons h
      have hline := List.not_mem_of_not_mem_cons h
      by_cases hslashes : c = '/' ∧ line.head? = some '/'
      · obtain ⟨rfl, hhead⟩ := hslashes
        obtain ⟨line, rfl⟩ := List.head?_eq_some_iff.mp hhead
        have hmore : '\n' ∉ line := fun hmem => hline (List.mem_cons_of_mem _ hmem)
        simp [dropComments, dropComments_true_line hmore, dropComments_true_append hmore]
      · have happend : ¬ (c = '/' ∧ (line ++ '\n' :: rest).head? = some '/') := by
          cases line <;> simp_all
        rw [List.cons_append, dropComments_false_cons (Ne.symm hc) happend,
          dropComments_false_cons (Ne.symm hc) hslashes, ih hline, List.cons_append]

theorem dropComments_isPrefix (h : '\n' ∉ line) : dropComments false line <+: line := by
  induction line with
  | nil => exact List.prefix_refl []
  | cons c line ih =>
      have hc := List.ne_of_not_mem_cons h
      have hline := List.not_mem_of_not_mem_cons h
      by_cases hslashes : c = '/' ∧ line.head? = some '/'
      · obtain ⟨rfl, hhead⟩ := hslashes
        obtain ⟨line, rfl⟩ := List.head?_eq_some_iff.mp hhead
        have hmore : '\n' ∉ line := fun hmem => hline (List.mem_cons_of_mem _ hmem)
        simp [dropComments, dropComments_true_line hmore]
      · rw [dropComments_false_cons (Ne.symm hc) hslashes]
        exact List.cons_prefix_cons.mpr ⟨rfl, ih hline⟩

theorem trimLineEnds_append (text rest : List Char) :
    trimLineEnds (text ++ '\n' :: rest) = trimLineEnds text ++ '\n' :: trimLineEnds rest := by
  induction text with
  | nil => simp [trimLineEnds, isBlank]
  | cons c text ih =>
      have hend : atLineEnd (trimLineEnds text ++ '\n' :: trimLineEnds rest) =
          atLineEnd (trimLineEnds text) := by
        cases trimLineEnds text <;> rfl
      simp only [List.cons_append, trimLineEnds, ih, hend]
      split <;> rfl

theorem trimLineEnds_isPrefix (h : '\n' ∉ line) : trimLineEnds line <+: line := by
  induction line with
  | nil => exact List.prefix_refl []
  | cons c line ih =>
      have hline := List.not_mem_of_not_mem_cons h
      have hprefix := ih hline
      rw [trimLineEnds]
      cases htrimmed : trimLineEnds line with
      | nil => split <;> simp
      | cons d more =>
          rw [htrimmed] at hprefix
          have hd : d ≠ '\n' := fun hd => hline (hd ▸ hprefix.subset (by simp))
          simpa [atLineEnd, hd] using hprefix

-- A text without its comments and the blanks at the ends of its lines. Only the break after its last line
-- may be missing.
def stripped (text : List Char) : List Char := trimLineEnds (dropComments false text)

theorem cleanChars_eq (text : List Char) : cleanChars text = endLastLine (stripped text) := rfl

theorem stripped_append (h : '\n' ∉ line) (rest : List Char) :
    stripped (line ++ '\n' :: rest) = stripped line ++ '\n' :: stripped rest := by
  rw [stripped, dropComments_false_append h, trimLineEnds_append, stripped, stripped]

theorem stripped_isPrefix (h : '\n' ∉ line) : stripped line <+: line := by
  have hdrop := dropComments_isPrefix h
  exact (trimLineEnds_isPrefix fun hmem => h (hdrop.subset hmem)).trans hdrop

theorem newline_notMem_stripped (h : '\n' ∉ line) : '\n' ∉ stripped line :=
  fun hmem => h ((stripped_isPrefix h).subset hmem)

-- Each line is stripped by itself.
theorem splitOn_stripped (text : List Char) :
    (stripped text).splitOn '\n' = (text.splitOn '\n').map stripped := by
  induction text using line_induction with
  | last line hline =>
      rw [List.splitOn_eq_singleton hline, List.splitOn_eq_singleton (newline_notMem_stripped hline),
        List.map_singleton]
  | cons line rest hline ih =>
      rw [stripped_append hline, List.splitOn_append_cons_self_of_not_mem hline,
        List.splitOn_append_cons_self_of_not_mem (newline_notMem_stripped hline), ih, List.map_cons]

-- A line that is made only of blanks and perhaps of a comment after them.
def SaysNothing (line : List Char) : Prop :=
  ∃ blanks comment, line = blanks ++ comment ∧ (∀ c ∈ blanks, isBlank c) ∧
    (comment = [] ∨ ['/', '/'] <+: comment) ∧ '\n' ∉ comment

-- A source with a line put in after its first so many.
def insertLine (source : String) (count : Nat) (line : String) : String :=
  let lines := source.toList.splitOn '\n'
  .ofList (['\n'].intercalate (lines.take count ++ line.toList :: lines.drop count))

theorem SaysNothing.newline_notMem {line : List Char} (h : SaysNothing line) : '\n' ∉ line := by
  obtain ⟨blanks, comment, rfl, hblanks, _, hcomment⟩ := h
  rw [List.mem_append]
  rintro (hmem | hmem)
  · exact absurd (hblanks _ hmem) (by decide)
  · exact hcomment hmem

theorem SaysNothing.stripped_eq_nil {line : List Char} (h : SaysNothing line) : stripped line = [] := by
  obtain ⟨blanks, comment, rfl, hblanks, hcomment, hbreak⟩ := h
  have hdrop : dropComments false comment = [] := by
    rcases hcomment with rfl | ⟨more, rfl⟩
    · rfl
    · exact dropComments_true_line fun hmem => hbreak (List.mem_append_right _ hmem)
  rw [stripped]
  induction blanks with
  | nil => rw [List.nil_append, hdrop, trimLineEnds]
  | cons c blanks ih =>
      obtain ⟨hc, hmore⟩ := List.forall_mem_cons.mp hblanks
      have hnewline : c ≠ '\n' := by
        rintro rfl
        exact absurd hc (by decide)
      have hslash : c ≠ '/' := by
        rintro rfl
        exact absurd hc (by decide)
      rw [List.cons_append, dropComments_false_cons hnewline fun h => hslash h.1, trimLineEnds,
        ih hmore]
      simp [hc, atLineEnd]

theorem stripped_eq_intercalate (text : List Char) :
    stripped text = ['\n'].intercalate ((text.splitOn '\n').map stripped) := by
  rw [← splitOn_stripped, List.intercalate_splitOn]

theorem intercalate_append {first : List (List Char)} (h : first ≠ []) (line : List Char)
    (rest : List (List Char)) : ['\n'].intercalate (first ++ line :: rest) =
      ['\n'].intercalate first ++ '\n' :: ['\n'].intercalate (line :: rest) := by
  induction first with
  | nil => exact absurd rfl h
  | cons head first ih =>
      cases first with
      | nil => simp [List.intercalate_cons_cons]
      | cons next first =>
          have hrest := ih (by simp)
          simp only [List.cons_append] at hrest
          simp only [List.cons_append, List.intercalate_cons_cons, hrest, List.append_assoc]

theorem count_intercalate {lines : List (List Char)} (h : ∀ line ∈ lines, '\n' ∉ line) (hne : lines ≠ []) :
    (['\n'].intercalate lines).count '\n' + 1 = lines.length := by
  induction lines with
  | nil => exact absurd rfl hne
  | cons line lines ih =>
      obtain ⟨hline, hlines⟩ := List.forall_mem_cons.mp h
      cases lines with
      | nil => simp [List.count_eq_zero.mpr hline]
      | cons next lines =>
          rw [List.intercalate_cons_cons, List.length_cons, ← ih hlines (by simp)]
          simp [List.count_eq_zero.mpr hline, Nat.add_comm]

theorem intercalate_insert_nil {first : List (List Char)} (h : first ≠ []) (rest : List (List Char)) :
    (['\n'].intercalate (first ++ rest) = ['\n'].intercalate first ∧
        ['\n'].intercalate (first ++ [] :: rest) = ['\n'].intercalate first ++ ['\n']) ∨
      ∃ after, ['\n'].intercalate (first ++ rest) = ['\n'].intercalate first ++ '\n' :: after ∧
        ['\n'].intercalate (first ++ [] :: rest) =
          ['\n'].intercalate first ++ '\n' :: '\n' :: after := by
  rw [intercalate_append h]
  cases rest with
  | nil => exact .inl ⟨by simp, by simp⟩
  | cons next rest =>
      refine .inr ⟨['\n'].intercalate (next :: rest), intercalate_append h next rest, ?_⟩
      rw [List.intercalate_cons_cons]
      rfl

-- An empty line that is put in leaves nothing but its break.
theorem stripped_insertLine {count : Nat} (hpositive : 1 ≤ count)
    (hle : count ≤ (source.toList.splitOn '\n').length) {line : String} (hline : SaysNothing line.toList) :
    ∃ before, before.count '\n' + 1 = count ∧
      ((stripped source.toList = before ∧
          stripped (insertLine source count line).toList = before ++ ['\n']) ∨
        ∃ after, stripped source.toList = before ++ '\n' :: after ∧
          stripped (insertLine source count line).toList = before ++ '\n' :: '\n' :: after) := by
  have hbreak : ∀ other ∈ source.toList.splitOn '\n', '\n' ∉ other :=
    fun _ => newline_notMem_of_mem_splitOn
  rw [stripped_eq_intercalate, stripped_eq_intercalate, insertLine, String.toList_ofList]
  generalize source.toList.splitOn '\n' = lines at hle hbreak
  obtain ⟨first, rest, rfl, rfl⟩ : ∃ first rest, lines = first ++ rest ∧ first.length = count :=
    ⟨lines.take count, lines.drop count, by simp, List.length_take_of_le hle⟩
  obtain ⟨hfirst, hrest⟩ := List.forall_mem_append.mp hbreak
  have hall : ∀ other ∈ first ++ line.toList :: rest, '\n' ∉ other :=
    List.forall_mem_append.mpr ⟨hfirst, List.forall_mem_cons.mpr ⟨hline.newline_notMem, hrest⟩⟩
  have hne : first.map stripped ≠ [] := List.length_pos_iff.mp (by rwa [List.length_map])
  have hlines : ∀ other ∈ first.map stripped, '\n' ∉ other :=
    List.forall_mem_map.mpr fun other hother => newline_notMem_stripped (hfirst other hother)
  simp only [List.take_left, List.drop_left]
  rw [List.splitOn_intercalate '\n' hall (by simp), List.map_append, List.map_append, List.map_cons,
    hline.stripped_eq_nil]
  refine ⟨['\n'].intercalate (first.map stripped), ?_, intercalate_insert_nil hne _⟩
  rw [count_intercalate hlines hne, List.length_map]

theorem endLastLine_append (text rest : List Char) :
    endLastLine (text ++ '\n' :: rest) =
      text ++ '\n' :: if rest = [] then [] else endLastLine rest := by
  cases rest with
  | nil => simp [endLastLine]
  | cons c rest =>
      have hlast : (text ++ '\n' :: c :: rest).getLast? = (c :: rest).getLast? := by
        rw [List.getLast?_append, List.getLast?_cons_cons, List.getLast?_cons, Option.some_or]
      rw [if_neg (by simp), endLastLine, endLastLine, hlast]
      split <;> simp

theorem cleanChars_insertLine {count : Nat} (hpositive : 1 ≤ count)
    (hle : count ≤ (source.toList.splitOn '\n').length) {line : String} (hline : SaysNothing line.toList) :
    cleanChars (insertLine source count line).toList = cleanChars source.toList ∨
      ∃ before after, cleanChars source.toList = before ++ '\n' :: after ∧
        cleanChars (insertLine source count line).toList = before ++ '\n' :: '\n' :: after ∧
          (after = [] ∨ before.count '\n' + 1 = count) := by
  obtain ⟨before, hcount, ⟨hsource, hinserted⟩ | ⟨after, hsource, hinserted⟩⟩ :=
    stripped_insertLine hpositive hle hline
  · rw [cleanChars_eq, cleanChars_eq, hsource, hinserted, endLastLine_append, if_pos rfl, endLastLine]
    split
    · rename_i hlast
      obtain ⟨before, rfl⟩ := List.getLast?_eq_some_iff.mp hlast
      exact .inr ⟨before, [], rfl, by simp, .inl rfl⟩
    · exact .inl rfl
  · refine .inr ⟨before, if after = [] then [] else endLastLine after, ?_, ?_, .inr hcount⟩
    · rw [cleanChars_eq, hsource, endLastLine_append]
    · have hdouble : before ++ '\n' :: '\n' :: after = (before ++ ['\n']) ++ '\n' :: after := by simp
      rw [cleanChars_eq, hinserted, hdouble, endLastLine_append]
      simp

end Handheld.Script
