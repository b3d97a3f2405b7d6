import Handheld.Proofs.Pattern.Matching
import Handheld.Proofs.Script.Cleaning
import Mathlib.Data.List.TakeWhile

namespace Handheld.Script

open Pattern

variable {pattern : Pattern} {c : Char} {text found rest more less out out' : List Char}

-- What a pattern finds at the start of a text when it has to stop where a line ends, at its greediest.
structure LineEndMatch (pattern : Pattern) (found rest : List Char) : Prop where
  spells : pattern.Spells found
  ends : atLineEnd rest
  longest : ∀ more less, rest = more ++ less → pattern.Spells (found ++ more) → atLineEnd less → more = []

-- A text without all that a pattern finds up to line ends. The search goes from the left and on from the end of
-- what has been found.
inductive Erases (pattern : Pattern) : (text out : List Char) → Prop
  | nil : Erases pattern [] []
  | found {found rest out : List Char} : found ≠ [] → LineEndMatch pattern found rest →
      Erases pattern rest out → Erases pattern (found ++ rest) out
  | kept {c : Char} {rest out : List Char} :
      (∀ found after, c :: rest = found ++ after → ¬ LineEndMatch pattern found after) →
      Erases pattern rest out → Erases pattern (c :: rest) (c :: out)

-- The comments of a source, and the blanks at the ends of its lines.
def commentPattern : Pattern := .seq (.text "//") (.star (.one .notLineBreak))

def blanksPattern : Pattern := .many (.one (.ofChars [' ', '\t']))

theorem LineEndMatch.unique {found' rest' : List Char} (h : LineEndMatch pattern found rest)
    (h' : LineEndMatch pattern found' rest') (heq : found ++ rest = found' ++ rest') :
    found = found' ∧ rest = rest' := by
  rcases List.append_eq_append_iff.mp heq with ⟨more, rfl, rfl⟩ | ⟨more, rfl, rfl⟩
  · obtain rfl := h.longest more rest' rfl h'.spells h'.ends
    simp
  · obtain rfl := h'.longest more rest rfl h.spells h.ends
    simp

theorem Erases.unique (h : Erases pattern text out) (h' : Erases pattern text out') : out = out' := by
  induction h generalizing out' with
  | nil =>
      generalize htext : [] = text at h'
      cases h' with
      | nil => rfl
      | found hne => simp [hne] at htext
      | kept => simp at htext
  | @found found rest out hne hmatch _ ih =>
      generalize htext : found ++ rest = text at h'
      cases h' with
      | nil => simp [hne] at htext
      | found _ hmatch' herases =>
          obtain ⟨_, rfl⟩ := hmatch.unique hmatch' htext
          exact ih herases
      | kept hnone => exact absurd hmatch (hnone _ _ htext.symm)
  | @kept c rest out hnone _ ih =>
      generalize htext : c :: rest = text at h'
      cases h' with
      | nil => simp at htext
      | found _ hmatch' => exact absurd hmatch' (hnone _ _ htext)
      | kept _ herases =>
          obtain ⟨rfl, rfl⟩ := List.cons.inj htext
          rw [ih herases]

theorem spells_comment_iff :
    commentPattern.Spells text ↔ ∃ more, text = '/' :: '/' :: more ∧ '\n' ∉ more := by
  have hclass (more : List Char) : (∀ c ∈ more, CharClass.notLineBreak.contains c) ↔ '\n' ∉ more := by
    have hchar (c : Char) : CharClass.notLineBreak.contains c ↔ c ≠ '\n' := by
      rw [ne_eq, ← CharClass.contains_char_iff, CharClass.notLineBreak, CharClass.contains, Bool.not_eq_true']
      exact Bool.not_eq_true _ ▸ Iff.rfl
    simp only [hchar]
    exact ⟨fun h hmem => h '\n' hmem rfl, fun h c hc heq => h (heq ▸ hc)⟩
  constructor
  · intro h
    unfold commentPattern at h
    cases h with
    | seq hslashes hmore =>
        rw [eq_of_spells_text hslashes]
        exact ⟨_, rfl, (hclass _).mp (spells_star_one_iff.mp hmore)⟩
  · rintro ⟨more, rfl, hmore⟩
    have hslash : (one (.char '/')).Spells ['/'] := .one (by decide)
    exact .seq (.seq hslash hslash) (spells_star_one_iff.mpr ((hclass more).mpr hmore))

theorem spells_blanks_iff : blanksPattern.Spells text ↔ text ≠ [] ∧ ∀ c ∈ text, isBlank c := by
  have hclass (c : Char) : (CharClass.ofChars [' ', '\t']).contains c ↔ isBlank c := by
    simp [CharClass.contains_ofChars_iff, isBlank]
  rw [blanksPattern, spells_many_one_iff]
  simp only [hclass]

@[simp] theorem atLineEnd_cons (c : Char) (text : List Char) : atLineEnd (c :: text) = (c = '\n' : Bool) := rfl

theorem ne_newline_of_isBlank (h : isBlank c) : c ≠ '\n' := by
  rintro rfl
  exact absurd h (by decide)

-- A pattern that reads no line breaks is at its greediest wherever a line ends.
theorem lineEndMatch_of_spells (hpattern : ∀ text, pattern.Spells text → '\n' ∉ text)
    (hspells : pattern.Spells found) (hends : atLineEnd rest) : LineEndMatch pattern found rest := by
  refine ⟨hspells, hends, fun more less hrest hmore _ => ?_⟩
  subst hrest
  cases more with
  | nil => rfl
  | cons c more =>
      have hc : c = '\n' := by simpa [atLineEnd] using hends
      exact absurd (by simp [hc]) (hpattern _ hmore)

theorem newline_notMem_of_comment (text : List Char) (h : commentPattern.Spells text) : '\n' ∉ text := by
  obtain ⟨more, rfl, hmore⟩ := spells_comment_iff.mp h
  simp [hmore]

theorem newline_notMem_of_blanks (text : List Char) (h : blanksPattern.Spells text) : '\n' ∉ text :=
  fun hmem => ne_newline_of_isBlank ((spells_blanks_iff.mp h).2 '\n' hmem) rfl

theorem dropComments_true_eq (text : List Char) :
    dropComments true text = dropComments false (text.dropWhile (· ≠ '\n')) := by
  induction text with
  | nil => rfl
  | cons c text ih =>
      by_cases hc : c = '\n'
      · simp [hc, dropComments]
      · rw [dropComments_true_cons hc, ih, List.dropWhile_cons_of_pos (by simpa using hc)]

theorem atLineEnd_dropWhile (text : List Char) : atLineEnd (text.dropWhile (· ≠ '\n')) := by
  induction text with
  | nil => rfl
  | cons c text ih =>
      by_cases hc : c = '\n'
      · rw [List.dropWhile_cons_of_neg (by simp [hc]), atLineEnd_cons]
        exact decide_eq_true hc
      · rwa [List.dropWhile_cons_of_pos (by simp [hc])]

-- A pass that goes on either after a match or after a character at which there is none. A match may be long, so
-- the induction is on the length.
theorem erases_of_step {pass : List Char → List Char} (hnil : pass [] = [])
    (hstep : ∀ c rest,
      (∃ found after, c :: rest = found ++ after ∧ found ≠ [] ∧ LineEndMatch pattern found after ∧
        pass (c :: rest) = pass after) ∨
      ((∀ found after, c :: rest = found ++ after → ¬ LineEndMatch pattern found after) ∧
        pass (c :: rest) = c :: pass rest)) (text : List Char) : Erases pattern text (pass text) := by
  induction hlength : text.length using Nat.strongRecOn generalizing text with
  | ind length ih =>
      cases text with
      | nil =>
          rw [hnil]
          exact .nil
      | cons c rest =>
          rcases hstep c rest with ⟨found, after, heq, hne, hmatch, hpass⟩ | ⟨hnone, hpass⟩
          · have hpositive := List.length_pos_iff.mpr hne
            have hshorter : after.length < length := by
              rw [← hlength, heq, List.length_append]
              omega
            rw [hpass, heq]
            exact .found hne hmatch (ih after.length hshorter after rfl)
          · rw [hpass]
            exact .kept hnone (ih rest.length (by simp [← hlength]) rest rfl)

theorem erases_dropComments (text : List Char) : Erases commentPattern text (dropComments false text) := by
  refine erases_of_step rfl (fun c rest => ?_) text
  by_cases hslashes : c = '/' ∧ rest.head? = some '/'
  · left
    obtain ⟨rfl, hhead⟩ := hslashes
    obtain ⟨more, rfl⟩ := List.head?_eq_some_iff.mp hhead
    have hbreak : '\n' ∉ more.takeWhile (· ≠ '\n') := fun hmem => by
      simpa using List.mem_takeWhile_imp hmem
    refine ⟨'/' :: '/' :: more.takeWhile (· ≠ '\n'), more.dropWhile (· ≠ '\n'), by simp, by simp, ?_,
      dropComments_true_eq more⟩
    exact lineEndMatch_of_spells newline_notMem_of_comment (spells_comment_iff.mpr ⟨_, rfl, hbreak⟩)
      (atLineEnd_dropWhile more)
  · right
    constructor
    · intro found after heq hmatch
      obtain ⟨more, rfl, _⟩ := spells_comment_iff.mp hmatch.spells
      obtain ⟨rfl, rfl⟩ := List.cons.inj heq
      simp at hslashes
    · by_cases hc : c = '\n'
      · simp [hc, dropComments]
      · exact dropComments_false_cons hc hslashes

theorem atLineEnd_trimLineEnds (text : List Char) :
    atLineEnd (trimLineEnds text) = atLineEnd (text.dropWhile isBlank) := by
  induction text with
  | nil => rfl
  | cons c text ih =>
      by_cases hc : isBlank c
      · have hnewline := ne_newline_of_isBlank hc
        rw [List.dropWhile_cons_of_pos hc, ← ih, trimLineEnds]
        by_cases hends : atLineEnd (trimLineEnds text) <;> simp [hc, hends, hnewline]
      · rw [List.dropWhile_cons_of_neg hc, trimLineEnds]
        simp [hc]

theorem trimLineEnds_of_atLineEnd (h : atLineEnd (text.dropWhile isBlank)) :
    trimLineEnds text = trimLineEnds (text.dropWhile isBlank) := by
  induction text with
  | nil => rfl
  | cons c text ih =>
      by_cases hc : isBlank c
      · rw [List.dropWhile_cons_of_pos hc] at h ⊢
        have hends : atLineEnd (trimLineEnds text) := by rwa [atLineEnd_trimLineEnds]
        rw [← ih h, trimLineEnds]
        simp [hc, hends]
      · rw [List.dropWhile_cons_of_neg hc]

theorem erases_trimLineEnds (text : List Char) : Erases blanksPattern text (trimLineEnds text) := by
  refine erases_of_step rfl (fun c rest => ?_) text
  by_cases hblank : isBlank c ∧ atLineEnd (rest.dropWhile isBlank)
  · left
    obtain ⟨hc, hends⟩ := hblank
    have hdrop : (c :: rest).dropWhile isBlank = rest.dropWhile isBlank := List.dropWhile_cons_of_pos hc
    have hblanks : ∀ d ∈ c :: rest.takeWhile isBlank, isBlank d :=
      List.forall_mem_cons.mpr ⟨hc, fun d hd => List.mem_takeWhile_imp hd⟩
    refine ⟨c :: rest.takeWhile isBlank, rest.dropWhile isBlank, by simp, by simp, ?_, ?_⟩
    · exact lineEndMatch_of_spells newline_notMem_of_blanks
        (spells_blanks_iff.mpr ⟨by simp, hblanks⟩) hends
    · rw [trimLineEnds_of_atLineEnd (by rwa [hdrop]), hdrop]
  · right
    constructor
    · intro found after heq hmatch
      obtain ⟨hne, hblanks⟩ := spells_blanks_iff.mp hmatch.spells
      obtain ⟨d, more, rfl⟩ := List.exists_cons_of_ne_nil hne
      rw [List.cons_append] at heq
      obtain ⟨rfl, rfl⟩ := List.cons.inj heq
      obtain ⟨hc, hmore⟩ := List.forall_mem_cons.mp hblanks
      -- What comes after the blanks is not a blank, since a line ends there.
      have hafter : after.dropWhile isBlank = after := by
        cases hafter : after with
        | nil => rfl
        | cons d after =>
            have hd : d = '\n' := by simpa [hafter] using hmatch.ends
            exact List.dropWhile_cons_of_neg (by simp [hd, isBlank])
      refine hblank ⟨hc, ?_⟩
      rw [List.dropWhile_append_of_pos hmore, hafter]
      exact hmatch.ends
    · rw [trimLineEnds, atLineEnd_trimLineEnds]
      exact if_neg (by simpa using hblank)

-- Each of the two passes over a source leaves out exactly what its pattern finds.
theorem erases_comment_iff : Erases commentPattern text out ↔ out = dropComments false text := by
  constructor
  · exact fun h => h.unique (erases_dropComments text)
  · rintro rfl
    exact erases_dropComments text

theorem erases_blanks_iff : Erases blanksPattern text out ↔ out = trimLineEnds text := by
  constructor
  · exact fun h => h.unique (erases_trimLineEnds text)
  · rintro rfl
    exact erases_trimLineEnds text

end Handheld.Script
