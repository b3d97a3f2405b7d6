import Handheld.Proofs.Pattern.Matching

namespace Handheld.Pattern

variable {c : Char} {cls : CharClass} {pattern : Pattern} {sites : List Nat} {site : Nat}
  {readings : List Reading} {reading : Reading}

-- What is matched of a text and what is matched when the character after its first so many is doubled: the
-- same, if the match does not come to that character, and else one character more.
inductive Stretched (before : Nat) : Option Nat → Option Nat → Prop
  | same {found : Option Nat} : (∀ count ∈ found, count ≤ before) → Stretched before found found
  | longer {count : Nat} : before < count → Stretched before (some count) (some (count + 1))

-- A pattern takes a doubled character with the single one, or leaves both.
def Elastic (c : Char) (pattern : Pattern) : Prop := ∀ before after,
  Stretched before.length (pattern.matchLength? (before ++ c :: after))
    (pattern.matchLength? (before ++ c :: c :: after))

def ElasticReadings (c : Char) (sites : List Nat) (readings : List Reading) : Prop :=
  ∀ prior before after,
    Stretched before.length (preferred sites prior readings (before ++ c :: after))
      (preferred sites prior readings (before ++ c :: c :: after))

theorem Stretched.succ {before : Nat} {found found' : Option Nat} (h : Stretched before found found') :
    Stretched (before + 1) (found.map (· + 1)) (found'.map (· + 1)) := by
  cases h with
  | same hle =>
      refine .same fun count hcount => ?_
      obtain ⟨less, hless, rfl⟩ := Option.map_eq_some_iff.mp hcount
      exact Nat.succ_le_succ (hle less hless)
  | longer hlt => exact .longer (Nat.succ_lt_succ hlt)

-- What a reading goes on with after a character it spells with that character before it.
theorem notMem_of_read (h : ∀ reading ∈ readings, ∀ text, SpelledBy reading text → c ∉ text)
    {place : Place} {d : Char} {rest : Reading}
    (hrest : ∃ read ∈ (outlook place sites readings).reads, read.1.contains d ∧ read.2 = rest)
    {text : List Char} (hspelled : SpelledBy rest text) : c ∉ d :: text := by
  obtain ⟨⟨cls, _⟩, hreads, hd, rfl⟩ := hrest
  obtain ⟨reading, hreading, hstep⟩ := (exists_of_outlook _ _ _).1 cls _ hreads
  exact h reading hreading _ (hstep d text hd hspelled)

-- What follows a character that cannot be read makes no difference to a match.
theorem preferred_append_cons (h : ∀ reading ∈ readings, ∀ text, SpelledBy reading text → c ∉ text)
    (prior : Option Char) (before after after' : List Char) :
    preferred sites prior readings (before ++ c :: after) =
      preferred sites prior readings (before ++ c :: after') := by
  induction before generalizing prior readings with
  | nil =>
      simp only [List.nil_append, preferred]
      generalize hnext : (outlook ⟨prior, some c⟩ sites readings).reads.filterMap _ = next
      have hnone (text : List Char) : preferred sites (some c) next text = none := by
        refine Option.eq_none_iff_forall_ne_some.mpr fun count hcount => ?_
        obtain ⟨_, rest, hrest, hspelled⟩ := exists_of_preferred hcount
        exact notMem_of_read h (by simpa [← hnext] using hrest) hspelled (by simp)
      rw [hnone, hnone]
  | cons d before ih =>
      simp only [List.cons_append, preferred]
      generalize hnext : (outlook ⟨prior, some d⟩ sites readings).reads.filterMap _ = next
      have hspells : ∀ rest ∈ next, ∀ text, SpelledBy rest text → c ∉ text := by
        intro rest hrest text hspelled hmem
        exact notMem_of_read h (by simpa [← hnext] using hrest) hspelled (List.mem_cons_of_mem d hmem)
      rw [ih hspells]

theorem matchLength?_append_cons (h : ∀ text, pattern.Spells text → c ∉ text)
    (before after after' : List Char) :
    pattern.matchLength? (before ++ c :: after) = pattern.matchLength? (before ++ c :: after') ∧
      ∀ count ∈ pattern.matchLength? (before ++ c :: after), count ≤ before.length := by
  refine ⟨preferred_append_cons ?_ none before after after', fun count hcount => ?_⟩
  · intro reading hreading text hspelled
    obtain rfl := List.mem_singleton.mp hreading
    exact h text (spelledBy_singleton.mp hspelled)
  · obtain ⟨_, hspells⟩ := spells_of_matchLength? hcount
    refine Nat.le_of_not_lt fun hlt => h _ hspells ?_
    obtain ⟨more, rfl⟩ := Nat.exists_eq_add_of_lt hlt
    simp [List.take_append, Nat.add_assoc]

theorem notMem_of_spells (h : ∀ cls ∈ pattern.classes, ¬ cls.contains c) (text : List Char)
    (hspells : pattern.Spells text) : c ∉ text := by
  intro hmem
  obtain ⟨cls, hcls, hcontains⟩ := contains_of_spells hspells c hmem
  exact h cls hcls hcontains

theorem elastic_of_classes (h : ∀ cls ∈ pattern.classes, ¬ cls.contains c) : pattern.Elastic c := by
  intro before after
  obtain ⟨heq, hle⟩ := matchLength?_append_cons (notMem_of_spells h) before after (c :: after)
  rw [← heq]
  exact .same hle

-- A reading with a task that is not a class goes on with the ways to do it.
theorem outlook_task {task : Task} {rest : Reading} {others : List Reading} (hsite : task.site ∈ sites)
    (hcls : task.cls? = none) (place : Place) : outlook place sites ((task :: rest) :: others) =
      outlook place (sites.erase task.site) ((task.ways place).map (· ++ rest) ++ others) := by
  rw [outlook, dif_pos hsite]
  simp only [hcls]

theorem outlook_class {rest : Reading} {others : List Reading} (hsite : site ∈ sites) (place : Place) :
    outlook place sites ((.read site (one cls) :: rest) :: others) =
      ⟨(cls, rest) :: (outlook place (sites.erase site) others).reads,
        (outlook place (sites.erase site) others).stops⟩ := by
  rw [outlook, dif_pos (show (Task.read site (one cls)).site ∈ sites from hsite)]
  rfl

theorem outlook_nil (place : Place) : outlook place sites [] = ⟨[], false⟩ := by
  rw [outlook]

theorem outlook_again (hsite : site ∈ sites) (hbody : site + 1 ∈ sites.erase site) (place : Place) :
    outlook place sites [[.again site true (one cls)]] = ⟨[(cls, [.again site true (one cls)])], true⟩ := by
  rw [outlook_task (by exact hsite) rfl]
  change outlook place (sites.erase site)
    [[.read (site + 1) (one cls), .again site true (one cls)], []] = _
  rw [outlook_class hbody, outlook]

theorem outlook_many (hsite : site ∈ sites) (hbody : site + 2 ∈ sites.erase site) (place : Place) :
    outlook place sites [[.read site (many (one cls))]] =
      ⟨[(cls, [.again (site + 1) true (one cls)])], false⟩ := by
  rw [outlook_task (by exact hsite) rfl]
  change outlook place (sites.erase site)
    [[.read (site + 2) (one cls), .again (site + 1) true (one cls)]] = _
  rw [outlook_class hbody, outlook_nil]

-- A repeated class is read as often as it can be.
theorem preferred_again (hsite : site ∈ sites) (hbody : site + 1 ∈ sites.erase site)
    (prior : Option Char) (text : List Char) :
    preferred sites prior [[.again site true (one cls)]] text =
      some (text.takeWhile cls.contains).length := by
  induction text generalizing prior with
  | nil => simp [preferred, outlook_again hsite hbody]
  | cons d text ih =>
      simp only [preferred, outlook_again hsite hbody, List.filterMap_cons, List.filterMap_nil]
      by_cases hd : cls.contains d <;> simp [hd, ih]

-- A match that cannot end before it has read a character of some class.
theorem preferred_cons (h : ∀ place, outlook place sites readings = ⟨[(cls, reading)], false⟩)
    (prior : Option Char) (d : Char) (text : List Char) :
    preferred sites prior readings (d :: text) =
      if cls.contains d then (preferred sites (some d) [reading] text).map (· + 1) else none := by
  simp only [preferred, h, List.filterMap_cons, List.filterMap_nil]
  by_cases hd : cls.contains d
  · simp only [hd, if_true]
    cases preferred sites (some d) [reading] text <;> rfl
  · simp [hd]

theorem stretched_takeWhile {p : Char → Bool} (hc : p c) (before after : List Char) :
    Stretched before.length (some ((before ++ c :: after).takeWhile p).length)
      (some ((before ++ c :: c :: after).takeWhile p).length) := by
  induction before with
  | nil => simpa [hc] using Stretched.longer (Nat.succ_pos _)
  | cons d before ih =>
      by_cases hd : p d
      · simpa [hd] using ih.succ
      · simpa [hd] using Stretched.same (by simp)

theorem elasticReadings_many (hsite : site ∈ sites) (hbody : site + 2 ∈ sites.erase site)
    (hround : site + 1 ∈ sites) (hbody' : site + 2 ∈ sites.erase (site + 1)) (hc : cls.contains c) :
    ElasticReadings c sites [[.read site (many (one cls))]] := by
  intro prior before after
  have houtlook (place : Place) : outlook place sites [[.read site (many (one cls))]] =
      ⟨[(cls, [.again (site + 1) true (one cls)])], false⟩ := outlook_many hsite hbody place
  have hstep := preferred_cons houtlook prior
  cases before with
  | nil =>
      simp only [List.nil_append, hstep, hc, if_true, preferred_again hround hbody', List.takeWhile_cons,
        Option.map_some, List.length_cons]
      exact .longer (Nat.succ_pos _)
  | cons d before =>
      simp only [List.cons_append, hstep, preferred_again hround hbody']
      split
      · exact (stretched_takeWhile hc before after).succ
      · exact .same (by simp)

theorem ElasticReadings.cons (h : ∀ place, outlook place sites readings = ⟨[(cls, reading)], false⟩)
    (hc : ¬ cls.contains c) (hrest : ElasticReadings c sites [reading]) :
    ElasticReadings c sites readings := by
  intro prior before after
  have hstep := preferred_cons h prior
  cases before with
  | nil =>
      simp only [List.nil_append, hstep, if_neg hc]
      exact .same (by simp)
  | cons d before =>
      simp only [List.cons_append, hstep]
      split
      · exact (hrest _ before after).succ
      · exact .same (by simp)

theorem elastic_many (hc : cls.contains c) : (many (one cls)).Elastic c := by
  have hmany : ElasticReadings c (List.range 3) [[.read 0 (many (one cls))]] :=
    elasticReadings_many (by decide) (by decide) (by decide) (by decide) hc
  exact fun before after => hmany none before after

theorem outlook_seq_many {first : CharClass} (place : Place) :
    outlook place (List.range 5) [[.read 0 (seq (one first) (many (one cls)))]] =
      ⟨[(first, [.read 2 (many (one cls))])], false⟩ := by
  have hsite : 0 ∈ List.range 5 := by decide
  rw [outlook_task (by exact hsite) rfl]
  change outlook place [1, 2, 3, 4] [[.read 1 (one first), .read 2 (many (one cls))]] = _
  rw [outlook_class (by decide), outlook_nil]

theorem elastic_seq_many {first : CharClass} (hfirst : ¬ first.contains c) (hc : cls.contains c) :
    (seq (one first) (many (one cls))).Elastic c := by
  have hmany : ElasticReadings c (List.range 5) [[.read 2 (many (one cls))]] :=
    elasticReadings_many (by decide) (by decide) (by decide) (by decide) hc
  exact fun before after => hmany.cons outlook_seq_many hfirst none before after

end Handheld.Pattern
