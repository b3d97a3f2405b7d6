import Handheld.Proofs.Pattern.Doubling
import Mathlib.Data.List.Find

namespace Handheld.Pattern

variable {c : Char} {word : List Char} {words : List (List Char)} {site : Nat} {fresh sites : List Nat}
  {readings others : List Reading} {cls : CharClass}

def ofWord (word : List Char) : Pattern := ofParts (word.map fun c => one (.char c))

-- What is left to read of a word, with the site where it goes on.
abbrev Ahead := Nat × List Char

namespace Ahead

def reading : Ahead → Reading
  | (_, []) => []
  | (site, c :: word) => [.read site (ofWord (c :: word))]

-- The first site after those that a word takes, counted one too many.
def bound (ahead : Ahead) : Nat := ahead.1 + 2 * ahead.2.length

-- Words that take sites of their own, one after the other.
structure Spread (sites : List Nat) (aheads : List Ahead) : Prop where
  mem : ∀ ahead ∈ aheads, ∀ site, ahead.1 ≤ site → site + 1 < ahead.bound → site ∈ sites
  pairwise : aheads.Pairwise fun ahead later => ahead.bound ≤ later.1 + 1

-- The characters that the words go on with, up to the first word that has been read to its end.
def reads : List Ahead → List (CharClass × Reading)
  | [] => []
  | (_, []) :: _ => []
  | (site, c :: word) :: aheads => (.char c, reading (site + 2, word)) :: reads aheads

-- The words that go on with a character, up to the first word that has been read to its end.
def advance (c : Char) : List Ahead → List Ahead
  | [] => []
  | (_, []) :: _ => []
  | (site, d :: word) :: aheads =>
    if d = c then (site + 2, word) :: advance c aheads else advance c aheads

end Ahead

open Ahead

theorem outlook_done (place : Place) : outlook place sites ([] :: others) = ⟨[], true⟩ := by
  rw [outlook]

-- A word is read from its first character on, at sites that no word after it takes.
theorem outlook_word (others : List Reading)
    (hsites : ∀ t, site ≤ t → t + 1 < bound (site, c :: word) → t ∈ fresh) :
    ∃ left, (∀ t ∈ fresh, bound (site, c :: word) ≤ t + 1 → t ∈ left) ∧
      ∀ place, outlook place fresh (reading (site, c :: word) :: others) =
        ⟨(.char c, reading (site + 2, word)) :: (outlook place left others).reads,
          (outlook place left others).stops⟩ := by
  have hsite : site ∈ fresh := hsites site (Nat.le_refl _) (by simp [bound]; omega)
  cases word with
  | nil =>
      refine ⟨fresh.erase site, fun t ht hbound => ?_, fun place => outlook_class hsite place⟩
      exact (List.mem_erase_of_ne (by simp [bound] at hbound; omega)).mpr ht
  | cons d word =>
      have hnext : site + 1 ∈ fresh.erase site := by
        refine (List.mem_erase_of_ne (by omega)).mpr (hsites _ (by omega) ?_)
        simp [bound]
        omega
      refine ⟨(fresh.erase site).erase (site + 1), fun t ht hbound => ?_, fun place => ?_⟩
      · simp only [bound, List.length_cons] at hbound
        exact (List.mem_erase_of_ne (by omega)).mpr ((List.mem_erase_of_ne (by omega)).mpr ht)
      · rw [show reading (site, c :: d :: word) =
          [.read site (seq (one (.char c)) (ofWord (d :: word)))] from rfl]
        rw [outlook_task hsite rfl]
        exact outlook_class hnext place

theorem Ahead.Spread.tail {ahead : Ahead} {aheads : List Ahead} {left : List Nat}
    (h : Spread fresh (ahead :: aheads)) (hleft : ∀ t ∈ fresh, ahead.bound ≤ t + 1 → t ∈ left) :
    Spread left aheads := by
  obtain ⟨hfirst, hrest⟩ := List.pairwise_cons.mp h.pairwise
  refine ⟨fun later hlater t hle hlt => hleft t (h.mem later (by simp [hlater]) t hle hlt) ?_, hrest⟩
  have := hfirst later hlater
  omega

theorem outlook_words {aheads : List Ahead} (h : Spread fresh aheads) (place : Place) :
    outlook place fresh (aheads.map reading) = ⟨reads aheads, aheads.any (·.2.isEmpty)⟩ := by
  induction aheads generalizing fresh with
  | nil => exact outlook_nil place
  | cons ahead aheads ih =>
      obtain ⟨site, word⟩ := ahead
      cases word with
      | nil => exact outlook_done place
      | cons c word =>
          obtain ⟨left, hleft, houtlook⟩ := outlook_word (aheads.map reading)
            (h.mem (site, c :: word) (by simp))
          rw [List.map_cons, houtlook, ih (h.tail hleft)]
          simp [reads]

theorem Ahead.filterMap_reads (c : Char) (aheads : List Ahead) :
    ((reads aheads).filterMap fun (cls, reading) => if cls.contains c then some reading else none) =
      (advance c aheads).map reading := by
  induction aheads with
  | nil => rfl
  | cons ahead aheads ih =>
      obtain ⟨site, word⟩ := ahead
      cases word with
      | nil => rfl
      | cons d word =>
          by_cases hd : d = c
          · simp [reads, advance, CharClass.contains_char_iff, hd, ih]
          · simp [reads, advance, CharClass.contains_char_iff, hd, ih, Ne.symm hd]

theorem Ahead.exists_of_mem_advance {ahead : Ahead} {aheads : List Ahead} (h : ahead ∈ advance c aheads) :
    ∃ site word, ahead = (site + 2, word) ∧ (site, c :: word) ∈ aheads := by
  induction aheads with
  | nil => simp [advance] at h
  | cons first aheads ih =>
      obtain ⟨site, word⟩ := first
      cases word with
      | nil => simp [advance] at h
      | cons d word =>
          have hlater (h : ahead ∈ advance c aheads) :
              ∃ site' word', ahead = (site' + 2, word') ∧
                (site', c :: word') ∈ (site, d :: word) :: aheads := by
            obtain ⟨site', word', hahead, hmem⟩ := ih h
            exact ⟨site', word', hahead, List.mem_cons_of_mem _ hmem⟩
          simp only [advance] at h
          split at h
          · rename_i hd
            subst hd
            rcases List.mem_cons.mp h with hfirst | hrest
            · exact ⟨site, word, hfirst, by simp⟩
            · exact hlater hrest
          · exact hlater h

-- A word that goes on keeps the sites it has not come to yet.
theorem Ahead.Spread.advance {aheads : List Ahead} (h : Spread sites aheads) (c : Char) :
    Spread sites (advance c aheads) := by
  refine ⟨fun ahead hahead t hle hlt => ?_, ?_⟩
  · obtain ⟨site, word, rfl, hmem⟩ := exists_of_mem_advance hahead
    refine h.mem _ hmem t (by simp only at hle ⊢; omega) ?_
    simp only [bound, List.length_cons] at hlt ⊢
    omega
  · have hpairwise := h.pairwise
    clear h
    induction aheads with
    | nil => exact .nil
    | cons first aheads ih =>
        obtain ⟨site, word⟩ := first
        obtain ⟨hfirst, hrest⟩ := List.pairwise_cons.mp hpairwise
        cases word with
        | nil => exact .nil
        | cons d word =>
            simp only [Ahead.advance]
            split
            · refine List.pairwise_cons.mpr ⟨fun later hlater => ?_, ih hrest⟩
              obtain ⟨site', word', rfl, hmem⟩ := exists_of_mem_advance hlater
              have := hfirst _ hmem
              simp only [bound, List.length_cons] at this ⊢
              omega
            · exact ih hrest

theorem Ahead.find?_nil (aheads : List Ahead) :
    (aheads.find? (·.2.isPrefixOf [])).map (·.2.length) =
      if aheads.any (·.2.isEmpty) then some 0 else none := by
  induction aheads with
  | nil => rfl
  | cons ahead aheads ih =>
      obtain ⟨site, word⟩ := ahead
      cases word with
      | nil => rfl
      | cons c word =>
          have hlong : (c :: word).isPrefixOf [] = false := rfl
          simpa only [List.find?_cons, hlong, List.any_cons, List.isEmpty_cons, Bool.false_or] using ih

theorem Ahead.find?_cons (c : Char) (text : List Char) (aheads : List Ahead) :
    (aheads.find? (·.2.isPrefixOf (c :: text))).map (·.2.length) =
      match ((Ahead.advance c aheads).find? (·.2.isPrefixOf text)).map (·.2.length) with
      | some count => some (count + 1)
      | none => if aheads.any (·.2.isEmpty) then some 0 else none := by
  induction aheads with
  | nil => rfl
  | cons ahead aheads ih =>
      obtain ⟨site, word⟩ := ahead
      cases word with
      | nil => simp [Ahead.advance]
      | cons d word =>
          by_cases hd : d = c
          · by_cases hword : word.isPrefixOf text
            · simp [Ahead.advance, hd, hword]
            · simpa only [Ahead.advance, hd, hword, if_true, List.find?_cons, List.isPrefixOf_cons_cons,
                beq_self_eq_true, Bool.true_and, List.any_cons, List.isEmpty_cons, Bool.false_or] using ih
          · have hne : (d == c) = false := beq_false_of_ne hd
            simpa only [Ahead.advance, if_neg hd, hne, List.find?_cons, List.isPrefixOf_cons_cons,
              Bool.false_and, List.any_cons, List.isEmpty_cons, Bool.false_or] using ih

-- Of some words the first one that the text begins with is matched.
theorem preferred_words {aheads : List Ahead} (h : Spread sites aheads) (prior : Option Char)
    (text : List Char) : preferred sites prior (aheads.map reading) text =
      (aheads.find? (·.2.isPrefixOf text)).map (·.2.length) := by
  induction text generalizing aheads prior with
  | nil => simp only [preferred, outlook_words h, find?_nil]
  | cons c text ih =>
      simp only [preferred, outlook_words h, filterMap_reads, ih (h.advance c), find?_cons]
      cases Ahead.advance c aheads with
      | nil => rfl
      | cons ahead aheads => rfl

theorem sites_ofWord {word : List Char} (hne : word ≠ []) :
    (ofWord word).sites + 1 = 2 * word.length := by
  induction word with
  | nil => exact absurd rfl hne
  | cons c word ih =>
      cases word with
      | nil => rfl
      | cons d word =>
          have := ih (by simp)
          have hsites : (ofWord (c :: d :: word)).sites = (ofWord (d :: word)).sites + 2 := by
            rw [show ofWord (c :: d :: word) = seq (one (.char c)) (ofWord (d :: word)) from rfl]
            simp only [Pattern.sites]
            omega
          simp only [hsites, List.length_cons] at this ⊢
          omega

-- The words of a choice, each at the site where its branch begins.
def branchesAt : (site : Nat) → List (List Char) → List Ahead
  | _, [] => []
  | site, [word] => [(site, word)]
  | site, word :: other :: words => (site + 1, word) :: branchesAt (site + 2 * word.length) (other :: words)

theorem map_branchesAt (site : Nat) (words : List (List Char)) :
    (branchesAt site words).map (·.2) = words := by
  fun_induction branchesAt site words with
  | case1 => rfl
  | case2 => rfl
  | case3 site word other words ih => rw [List.map_cons, ih]

theorem le_of_mem_branchesAt {ahead : Ahead} (h : ahead ∈ branchesAt site words) : site ≤ ahead.1 := by
  fun_induction branchesAt site words with
  | case1 => simp at h
  | case2 site word =>
      obtain rfl := List.mem_singleton.mp h
      exact Nat.le_refl _
  | case3 site word other words ih =>
      rcases List.mem_cons.mp h with rfl | hrest
      · exact Nat.le_succ _
      · have := ih hrest
        omega

theorem bound_of_mem_branchesAt {ahead : Ahead} (hwords : ∀ word ∈ words, word ≠ [])
    (h : ahead ∈ branchesAt site words) :
    ahead.bound ≤ site + (choice (words.map ofWord)).sites + 1 := by
  fun_induction branchesAt site words with
  | case1 => simp at h
  | case2 site word =>
      obtain rfl := List.mem_singleton.mp h
      have := sites_ofWord (hwords word (by simp))
      simp only [bound, List.map_cons, List.map_nil, choice]
      omega
  | case3 site word other words ih =>
      obtain ⟨hword, hrest⟩ := List.forall_mem_cons.mp hwords
      have hsites := sites_ofWord hword
      have hchoice : (choice ((word :: other :: words).map ofWord)).sites =
          (ofWord word).sites + (choice ((other :: words).map ofWord)).sites + 1 := rfl
      rw [hchoice]
      rcases List.mem_cons.mp h with rfl | hmem
      · simp only [bound]
        omega
      · have := ih hrest hmem
        omega

theorem pairwise_branchesAt (site : Nat) (words : List (List Char)) :
    (branchesAt site words).Pairwise fun ahead later => ahead.bound ≤ later.1 + 1 := by
  fun_induction branchesAt site words with
  | case1 => exact .nil
  | case2 site word => exact List.pairwise_singleton _ _
  | case3 site word other words ih =>
      refine List.pairwise_cons.mpr ⟨fun later hlater => ?_, ih⟩
      have := le_of_mem_branchesAt hlater
      simp only [bound]
      omega

theorem spread_branchesAt (hwords : ∀ word ∈ words, word ≠ [])
    (hsites : ∀ t, site ≤ t → t < site + (choice (words.map ofWord)).sites → t ∈ sites) :
    Spread sites (branchesAt site words) := by
  refine ⟨fun ahead hahead t hle hlt => hsites t ?_ ?_, pairwise_branchesAt site words⟩
  · exact Nat.le_trans (le_of_mem_branchesAt hahead) hle
  · have := bound_of_mem_branchesAt hwords hahead
    omega

theorem reading_of_ne_nil {word : List Char} (hne : word ≠ []) :
    reading (site, word) = [.read site (ofWord word)] := by
  cases word with
  | nil => exact absurd rfl hne
  | cons c word => rfl

-- A choice of words is entered at each of them.
theorem outlook_choice (hne : words ≠ []) (hwords : ∀ word ∈ words, word ≠ [])
    (hsites : ∀ t, site ≤ t → t < site + (choice (words.map ofWord)).sites → t ∈ fresh) (place : Place) :
    outlook place fresh [[.read site (choice (words.map ofWord))]] =
      ⟨reads (branchesAt site words), false⟩ := by
  fun_induction branchesAt site words generalizing fresh with
  | case1 => exact absurd rfl hne
  | case2 site word =>
      have hword : word ≠ [] := hwords word (by simp)
      have hspread : Spread fresh [(site, word)] := spread_branchesAt hwords hsites
      have hreading : [[.read site (choice ([word].map ofWord))]] = [(site, word)].map reading := by
        rw [List.map_singleton, List.map_singleton, reading_of_ne_nil hword]
        rfl
      rw [hreading, outlook_words hspread]
      simp [hword]
  | case3 site word other words ih =>
      obtain ⟨hword, hrest⟩ := List.forall_mem_cons.mp hwords
      have hlength := sites_ofWord hword
      have hchoice : (choice ((word :: other :: words).map ofWord)).sites =
          (ofWord word).sites + (choice ((other :: words).map ofWord)).sites + 1 := rfl
      rw [hchoice] at hsites
      obtain ⟨c, rest, rfl⟩ := List.exists_cons_of_ne_nil hword
      have hsecond : site + 1 + (ofWord (c :: rest)).sites = site + 2 * (c :: rest).length := by
        omega
      rw [outlook_task (hsites site (Nat.le_refl _) (by omega)) rfl]
      have hfirst : ∀ t, site + 1 ≤ t → t + 1 < bound (site + 1, c :: rest) → t ∈ fresh.erase site := by
        intro t hle hlt
        simp only [bound] at hlt
        exact (List.mem_erase_of_ne (by omega)).mpr (hsites t (by omega) (by omega))
      obtain ⟨left, hleft, houtlook⟩ := outlook_word
        [[.read (site + 1 + (ofWord (c :: rest)).sites) (choice ((other :: words).map ofWord))]] hfirst
      change outlook place (fresh.erase site) (reading (site + 1, c :: rest) ::
        [[.read (site + 1 + (ofWord (c :: rest)).sites) (choice ((other :: words).map ofWord))]]) = _
      rw [houtlook, hsecond, ih (by simp) hrest]
      · rfl
      · intro t hle hlt
        refine hleft t ((List.mem_erase_of_ne ?_).mpr (hsites t (by omega) ?_)) ?_
        · simp only [List.length_cons] at hle
          omega
        · omega
        · simp only [bound]
          omega

theorem preferred_congr (h : ∀ place, outlook place sites readings = outlook place sites others)
    (prior : Option Char) (text : List Char) :
    preferred sites prior readings text = preferred sites prior others text := by
  cases text with
  | nil => simp only [preferred, h]
  | cons c text => simp only [preferred, h]

-- Of a choice of words the first one that the text begins with is matched.
theorem matchLength?_choice_ofWord (hne : words ≠ []) (hwords : ∀ word ∈ words, word ≠ [])
    (text : List Char) : (choice (words.map ofWord)).matchLength? text =
      (words.find? (·.isPrefixOf text)).map (·.length) := by
  have hsites : ∀ t, 0 ≤ t → t < 0 + (choice (words.map ofWord)).sites →
      t ∈ List.range (choice (words.map ofWord)).sites := by
    intro t _ hlt
    exact List.mem_range.mpr (by omega)
  have hspread := spread_branchesAt hwords hsites
  have hstops : (branchesAt 0 words).any (·.2.isEmpty) = false := by
    refine List.any_eq_false.mpr fun ahead hahead => ?_
    have hmem : ahead.2 ∈ words := by
      have := List.mem_map_of_mem (f := (·.2)) hahead
      rwa [map_branchesAt] at this
    simpa using hwords _ hmem
  have houtlook (place : Place) :
      outlook place (List.range (choice (words.map ofWord)).sites)
        [[.read 0 (choice (words.map ofWord))]] =
      outlook place (List.range (choice (words.map ofWord)).sites) ((branchesAt 0 words).map reading) := by
    rw [outlook_choice hne hwords hsites, outlook_words hspread, hstops]
  rw [matchLength?, preferred_congr houtlook, preferred_words hspread]
  conv => rhs; rw [← map_branchesAt 0 words]
  rw [List.find?_map, Option.map_map]
  rfl

theorem matchLength?_choice {words : List String} (hne : words ≠ []) (hwords : ∀ word ∈ words, word ≠ "")
    (text : List Char) : (choice (words.map .text)).matchLength? text =
      (words.find? (·.toList.isPrefixOf text)).map (·.toList.length) := by
  have hchars : ∀ word ∈ words.map String.toList, word ≠ [] := by
    intro chars hmem
    obtain ⟨word, hword, rfl⟩ := List.mem_map.mp hmem
    simpa using hwords word hword
  have hmap : words.map Pattern.text = (words.map String.toList).map ofWord := by
    rw [List.map_map]
    rfl
  rw [hmap, matchLength?_choice_ofWord (by simpa using hne) hchars, List.find?_map, Option.map_map]
  rfl

theorem matchLength?_text {word : String} (hne : word ≠ "") (text : List Char) :
    (Pattern.text word).matchLength? text =
      if word.toList.isPrefixOf text then some word.toList.length else none := by
  have hchoice := matchLength?_choice (List.cons_ne_nil word []) (by simpa using hne) text
  rw [List.find?_singleton] at hchoice
  rw [show Pattern.text word = choice ([word].map .text) from rfl, hchoice]
  split <;> rfl

theorem preferred_many (hsite : site ∈ sites) (hbody : site + 2 ∈ sites.erase site)
    (hround : site + 1 ∈ sites) (hbody' : site + 2 ∈ sites.erase (site + 1)) (prior : Option Char)
    (text : List Char) : preferred sites prior [[.read site (many (one cls))]] text =
      if text.takeWhile cls.contains = [] then none else some (text.takeWhile cls.contains).length := by
  cases text with
  | nil => simp [preferred, outlook_many hsite hbody]
  | cons c text =>
      rw [preferred_cons (outlook_many hsite hbody), preferred_again hround hbody']
      by_cases hc : cls.contains c <;> simp [hc]

-- A class that is read at least once is read as often as it can be.
theorem matchLength?_many (cls : CharClass) (text : List Char) :
    (many (one cls)).matchLength? text =
      if text.takeWhile cls.contains = [] then none else some (text.takeWhile cls.contains).length := by
  rw [matchLength?, show (many (one cls)).sites = 3 from rfl]
  exact preferred_many (by decide) (by decide) (by decide) (by decide) none text

theorem matchLength?_seq_many_cons (first cls : CharClass) (c : Char) (text : List Char) :
    (seq (one first) (many (one cls))).matchLength? (c :: text) =
      if first.contains c then ((many (one cls)).matchLength? text).map (· + 1) else none := by
  have hmany (prior : Option Char) : preferred (List.range 5) prior [[.read 2 (many (one cls))]] text =
      (many (one cls)).matchLength? text := by
    rw [matchLength?_many]
    exact preferred_many (by decide) (by decide) (by decide) (by decide) prior text
  rw [matchLength?, show (seq (one first) (many (one cls))).sites = 5 from rfl,
    preferred_cons outlook_seq_many, hmany]

-- Once a match has begun, it is all the same whether the text ends or goes on with some character.
def EndsBefore (c : Char) (pattern : Pattern) : Prop := ∀ before after, before ≠ [] →
  pattern.matchLength? (before ++ c :: after) = pattern.matchLength? before

theorem isPrefixOf_append_cons {word before : List Char} (hword : c ∉ word.tail) (hne : before ≠ [])
    (after : List Char) : word.isPrefixOf (before ++ c :: after) = word.isPrefixOf before := by
  have hinside (word before : List Char) (hword : c ∉ word) :
      word.isPrefixOf (before ++ c :: after) = word.isPrefixOf before := by
    induction word generalizing before with
    | nil => simp
    | cons d word ih =>
        obtain ⟨hd, hrest⟩ : c ≠ d ∧ c ∉ word := by simpa using hword
        cases before with
        | nil => simp [List.isPrefixOf, hd.symm]
        | cons e before => simp [List.isPrefixOf_cons_cons, ih before hrest]
  obtain ⟨d, before, rfl⟩ := List.exists_cons_of_ne_nil hne
  cases word with
  | nil => rfl
  | cons e word => simp [List.isPrefixOf_cons_cons, hinside word before hword]

theorem takeWhile_append_cons {p : Char → Bool} (hc : ¬ p c) (before after : List Char) :
    (before ++ c :: after).takeWhile p = before.takeWhile p := by
  induction before with
  | nil => simp [hc]
  | cons d before ih => simp [List.takeWhile_cons, ih]

theorem endsBefore_choice {words : List String} (hne : words ≠ [])
    (hwords : ∀ word ∈ words, word ≠ "" ∧ c ∉ word.toList.tail) :
    (choice (words.map .text)).EndsBefore c := by
  intro before after hbefore
  have hnonempty : ∀ word ∈ words, word ≠ "" := fun word hword => (hwords word hword).1
  have hsame : words.find? (·.toList.isPrefixOf (before ++ c :: after)) =
      words.find? (·.toList.isPrefixOf before) := by
    refine List.find?_congr fun word hword => ?_
    exact isPrefixOf_append_cons (hwords word hword).2 hbefore after
  rw [matchLength?_choice hne hnonempty, matchLength?_choice hne hnonempty, hsame]

theorem endsBefore_many (hc : ¬ cls.contains c) : (many (one cls)).EndsBefore c := by
  intro before after _
  rw [matchLength?_many, matchLength?_many, takeWhile_append_cons hc]

theorem endsBefore_seq_many {first : CharClass} (hc : ¬ cls.contains c) :
    (seq (one first) (many (one cls))).EndsBefore c := by
  intro before after hne
  obtain ⟨d, before, rfl⟩ := List.exists_cons_of_ne_nil hne
  rw [List.cons_append, matchLength?_seq_many_cons, matchLength?_seq_many_cons, matchLength?_many,
    matchLength?_many, takeWhile_append_cons hc]

end Handheld.Pattern
