import Handheld.Pattern.Matching

namespace Handheld.CharClass

theorem contains_char_iff {c other : Char} : (char c).contains other ↔ other = c := by
  simp only [char, contains, Bool.and_eq_true, decide_eq_true_eq]
  constructor
  · rintro ⟨hlow, hhigh⟩
    exact Char.le_antisymm hhigh hlow
  · rintro rfl
    exact ⟨Char.le_refl _, Char.le_refl _⟩

theorem contains_ofChars_iff {chars : List Char} {c : Char} :
    (ofChars chars).contains c ↔ c ∈ chars := by
  unfold ofChars
  induction chars with
  | nil => simp [ofItems, contains]
  | cons first chars ih =>
      cases chars with
      | nil => simpa [ofItems] using contains_char_iff
      | cons second chars =>
          simp only [List.map_cons, ofItems, contains, Bool.or_eq_true, contains_char_iff,
            List.mem_cons] at ih ⊢
          rw [ih]

end Handheld.CharClass

namespace Handheld.Pattern

-- The texts that a pattern describes, whatever stands around them.
inductive Spells : Pattern → List Char → Prop
  | nothing : Spells .nothing []
  | one {cls : CharClass} {c : Char} : cls.contains c → Spells (.one cls) [c]
  | wordStart : Spells .wordStart []
  | wordEnd : Spells .wordEnd []
  | group {body : Pattern} {text : List Char} : Spells body text → Spells (.group body) text
  | seq {first second : Pattern} {text more : List Char} : Spells first text → Spells second more →
      Spells (.seq first second) (text ++ more)
  | first {first second : Pattern} {text : List Char} : Spells first text →
      Spells (.either first second) text
  | second {first second : Pattern} {text : List Char} : Spells second text →
      Spells (.either first second) text
  | none {times : Repetition} {eager : Bool} {body : Pattern} : times ≠ .plus →
      Spells (.repeated times eager body) []
  | once {times : Repetition} {eager : Bool} {body : Pattern} {text : List Char} :
      Spells body text → Spells (.repeated times eager body) text
  | more {times : Repetition} {eager : Bool} {body : Pattern} {text more : List Char} :
      times ≠ .optional → Spells body text → Spells (.repeated .star eager body) more →
      Spells (.repeated times eager body) (text ++ more)

def Task.Spells : Task → List Char → Prop
  | .read _ pattern, text => pattern.Spells text
  | .again _ eager body, text => (repeated .star eager body).Spells text

-- A reading spells what its tasks spell one after the other.
def SpelledBy : Reading → List Char → Prop
  | [], text => text = []
  | task :: rest, text => ∃ first more, text = first ++ more ∧ task.Spells first ∧ SpelledBy rest more

theorem spelledBy_append {first second : Reading} {text : List Char}
    (h : SpelledBy (first ++ second) text) :
    ∃ before after, text = before ++ after ∧ SpelledBy first before ∧ SpelledBy second after := by
  induction first generalizing text with
  | nil => exact ⟨[], text, rfl, rfl, h⟩
  | cons task rest ih =>
      obtain ⟨head, more, rfl, hhead, hmore⟩ := h
      obtain ⟨before, after, rfl, hbefore, hafter⟩ := ih hmore
      exact ⟨head ++ before, after, by simp, ⟨head, before, rfl, hhead, hbefore⟩, hafter⟩

theorem spelledBy_singleton {task : Task} {text : List Char} :
    SpelledBy [task] text ↔ task.Spells text := by
  constructor
  · rintro ⟨first, more, rfl, hfirst, rfl⟩
    simpa using hfirst
  · intro h
    exact ⟨text, [], by simp, h, rfl⟩

theorem mem_offer_iff {eager : Bool} {tasks way : List Task} :
    way ∈ offer eager tasks ↔ way = tasks ∨ way = [] := by
  cases eager <;> simp [offer, or_comm]

theorem spells_rounds {times : Repetition} {eager : Bool} {body : Pattern} {site site' : Nat}
    {text : List Char} (htimes : times ≠ .optional)
    (h : SpelledBy [.read site body, .again site' eager body] text) :
    (repeated times eager body).Spells text := by
  obtain ⟨first, more, rfl, hfirst, last, rest, rfl, hlast, rfl⟩ := h
  rw [List.append_nil]
  exact .more htimes hfirst hlast

-- Every way to do a task spells what the task spells.
theorem spells_of_mem_ways {place : Place} {task : Task} {way : Reading} {text : List Char}
    (hway : way ∈ task.ways place) (h : SpelledBy way text) : task.Spells text := by
  cases task with
  | again site eager body =>
      rcases mem_offer_iff.mp hway with rfl | rfl
      · exact spells_rounds (by simp) h
      · obtain rfl := h
        exact .none (by simp)
  | read site pattern =>
      cases pattern with
      | nothing =>
          obtain rfl := by simpa [Task.ways] using hway
          obtain rfl := h
          exact .nothing
      | one cls => simp [Task.ways] at hway
      | wordStart =>
          obtain ⟨_, rfl⟩ := by simpa [Task.ways] using hway
          obtain rfl := h
          exact .wordStart
      | wordEnd =>
          obtain ⟨_, rfl⟩ := by simpa [Task.ways] using hway
          obtain rfl := h
          exact .wordEnd
      | group body =>
          obtain rfl := by simpa [Task.ways] using hway
          exact .group (spelledBy_singleton.mp h)
      | seq first second =>
          obtain rfl := by simpa [Task.ways] using hway
          obtain ⟨text, more, rfl, hfirst, last, rest, rfl, hlast, rfl⟩ := h
          rw [List.append_nil]
          exact .seq hfirst hlast
      | either first second =>
          rcases (by simpa [Task.ways] using hway : way = _ ∨ way = _) with rfl | rfl
          · exact .first (spelledBy_singleton.mp h)
          · exact .second (spelledBy_singleton.mp h)
      | repeated times eager body =>
          cases times with
          | optional =>
              rcases mem_offer_iff.mp hway with rfl | rfl
              · exact .once (spelledBy_singleton.mp h)
              · obtain rfl := h
                exact .none (by simp)
          | star =>
              simp only [Task.ways] at hway
              split at hway
              · rcases mem_offer_iff.mp hway with rfl | rfl
                · exact spells_rounds (by simp) h
                · obtain rfl := h
                  exact .none (by simp)
              · obtain rfl := by simpa using hway
                exact spelledBy_singleton.mp h
          | plus =>
              obtain rfl := by simpa [Task.ways] using hway
              exact spells_rounds (by simp) h

theorem spelledBy_of_mem_ways {place : Place} {task : Task} {way rest : Reading} {text : List Char}
    (hway : way ∈ task.ways place) (h : SpelledBy (way ++ rest) text) :
    SpelledBy (task :: rest) text := by
  obtain ⟨before, after, rfl, hbefore, hafter⟩ := spelledBy_append h
  exact ⟨before, after, rfl, spells_of_mem_ways hway hbefore, hafter⟩

-- What some readings come to belongs to one of them: a character with what is read after it, or nothing
-- at all.
theorem exists_of_outlook (place : Place) (fresh : List Nat) (readings : List Reading) :
    (∀ cls rest, (cls, rest) ∈ (outlook place fresh readings).reads →
      ∃ reading ∈ readings, ∀ c text, cls.contains c → SpelledBy rest text →
        SpelledBy reading (c :: text)) ∧
      ((outlook place fresh readings).stops → ∃ reading ∈ readings, SpelledBy reading []) := by
  fun_induction outlook place fresh readings with
  | case1 => simp
  | case2 => simp [SpelledBy]
  | case3 fresh task rest others hfresh cls hcls outlook ih =>
      obtain ⟨hreads, hstops⟩ := ih
      refine ⟨?_, fun hstop => ?_⟩
      · intro cls' rest' hmem
        rcases List.mem_cons.mp hmem with heq | hmem
        · obtain ⟨rfl, rfl⟩ := Prod.mk.inj heq
          refine ⟨task :: rest', by simp, fun c text hc htext => ⟨[c], text, rfl, ?_, htext⟩⟩
          unfold Task.cls? at hcls
          split at hcls
          · obtain rfl := Option.some.inj hcls
            exact .one hc
          · simp at hcls
        · obtain ⟨reading, hreading, hspelled⟩ := hreads cls' rest' hmem
          exact ⟨reading, by simp [hreading], hspelled⟩
      · obtain ⟨reading, hreading, hspelled⟩ := hstops hstop
        exact ⟨reading, by simp [hreading], hspelled⟩
  | case4 fresh task rest others hfresh hcls ih =>
      obtain ⟨hreads, hstops⟩ := ih
      -- a reading after one step of the task was a reading of the task before it
      have hback (reading : Reading)
          (hreading : reading ∈ (task.ways place).map (· ++ rest) ++ others) :
          ∃ before ∈ (task :: rest) :: others,
            ∀ text, SpelledBy reading text → SpelledBy before text := by
        rcases List.mem_append.mp hreading with hmap | hother
        · obtain ⟨way, hway, rfl⟩ := List.mem_map.mp hmap
          exact ⟨task :: rest, by simp, fun text => spelledBy_of_mem_ways hway⟩
        · exact ⟨reading, by simp [hother], fun text => id⟩
      refine ⟨?_, fun hstop => ?_⟩
      · intro cls rest' hmem
        obtain ⟨reading, hreading, hspelled⟩ := hreads cls rest' hmem
        obtain ⟨before, hbefore, hsub⟩ := hback reading hreading
        exact ⟨before, hbefore, fun c text hc htext => hsub _ (hspelled c text hc htext)⟩
      · obtain ⟨reading, hreading, hspelled⟩ := hstops hstop
        obtain ⟨before, hbefore, hsub⟩ := hback reading hreading
        exact ⟨before, hbefore, hsub _ hspelled⟩
  | case5 fresh task rest others hfresh ih =>
      obtain ⟨hreads, hstops⟩ := ih
      refine ⟨?_, fun hstop => ?_⟩
      · intro cls rest' hmem
        obtain ⟨reading, hreading, hspelled⟩ := hreads cls rest' hmem
        exact ⟨reading, by simp [hreading], hspelled⟩
      · obtain ⟨reading, hreading, hspelled⟩ := hstops hstop
        exact ⟨reading, by simp [hreading], hspelled⟩

theorem exists_of_preferred {sites : List Nat} {before : Option Char} {readings : List Reading}
    {text : List Char} {count : Nat} (h : preferred sites before readings text = some count) :
    count ≤ text.length ∧ ∃ reading ∈ readings, SpelledBy reading (text.take count) := by
  induction text generalizing before readings count with
  | nil =>
      simp only [preferred, Option.ite_none_right_eq_some, Option.some.injEq] at h
      obtain ⟨hstops, rfl⟩ := h
      exact ⟨Nat.le_refl _, (exists_of_outlook _ _ _).2 hstops⟩
  | cons c text ih =>
      simp only [preferred] at h
      split at h
      · rename_i more hmore
        obtain rfl := Option.some.inj h
        simp only [Option.ite_none_left_eq_some] at hmore
        obtain ⟨hle, rest, hrest, hspelled⟩ := ih hmore.2
        obtain ⟨⟨cls, rest⟩, hreads, hcls⟩ := List.mem_filterMap.mp hrest
        obtain ⟨hc, rfl⟩ := by simpa using hcls
        obtain ⟨reading, hreading, hstep⟩ := (exists_of_outlook _ _ _).1 cls rest hreads
        exact ⟨Nat.succ_le_succ hle, reading, hreading, hstep c _ hc hspelled⟩
      · simp only [Option.ite_none_right_eq_some, Option.some.injEq] at h
        obtain ⟨hstops, rfl⟩ := h
        exact ⟨Nat.zero_le _, (exists_of_outlook _ _ _).2 hstops⟩

-- What a pattern matches it describes.
theorem spells_of_matchLength? {pattern : Pattern} {text : List Char} {count : Nat}
    (h : pattern.matchLength? text = some count) :
    count ≤ text.length ∧ pattern.Spells (text.take count) := by
  obtain ⟨hle, reading, hreading, hspelled⟩ := exists_of_preferred h
  obtain rfl := List.mem_singleton.mp hreading
  exact ⟨hle, spelledBy_singleton.mp hspelled⟩

theorem eq_of_spells_ofParts {cs : List Char} {text : List Char}
    (h : (ofParts (cs.map fun c => one (.char c))).Spells text) : text = cs := by
  have hone {c : Char} {text : List Char} (h : (one (.char c)).Spells text) : text = [c] := by
    cases h with
    | one hc => rw [CharClass.contains_char_iff.mp hc]
  induction cs generalizing text with
  | nil =>
      cases h with
      | nothing => rfl
  | cons c cs ih =>
      cases cs with
      | nil => exact hone h
      | cons other cs =>
          cases h with
          | seq hfirst hrest => rw [hone hfirst, ih hrest, List.singleton_append]

theorem eq_of_spells_text {word : String} {text : List Char} (h : (Pattern.text word).Spells text) :
    text = word.toList :=
  eq_of_spells_ofParts h

theorem exists_of_spells_choice {branches : List Pattern} {text : List Char}
    (h : (choice branches).Spells text) (hne : branches ≠ []) : ∃ branch ∈ branches, branch.Spells text := by
  induction branches with
  | nil => exact absurd rfl hne
  | cons branch branches ih =>
      cases branches with
      | nil => exact ⟨branch, by simp, h⟩
      | cons other branches =>
          cases h with
          | first hfirst => exact ⟨branch, by simp, hfirst⟩
          | second hsecond =>
              obtain ⟨found, hfound, hspells⟩ := ih hsecond (by simp)
              exact ⟨found, by simp [hfound], hspells⟩

-- The classes that a pattern reads characters from.
def classes : Pattern → List CharClass
  | nothing | wordStart | wordEnd => []
  | one cls => [cls]
  | group body => body.classes
  | seq first second => first.classes ++ second.classes
  | either first second => first.classes ++ second.classes
  | repeated _ _ body => body.classes

theorem contains_of_spells {pattern : Pattern} {text : List Char} (h : pattern.Spells text) :
    ∀ c ∈ text, ∃ cls ∈ pattern.classes, cls.contains c := by
  induction h with
  | nothing | wordStart | wordEnd | none => simp
  | @one cls c hc => simpa [classes] using hc
  | group _ ih => exact ih
  | once _ ih => exact ih
  | seq _ _ ihfirst ihsecond =>
      intro c hc
      rcases List.mem_append.mp hc with hfirst | hsecond
      · obtain ⟨cls, hcls, hcontains⟩ := ihfirst c hfirst
        exact ⟨cls, by simp [classes, hcls], hcontains⟩
      · obtain ⟨cls, hcls, hcontains⟩ := ihsecond c hsecond
        exact ⟨cls, by simp [classes, hcls], hcontains⟩
  | first _ ih =>
      intro c hc
      obtain ⟨cls, hcls, hcontains⟩ := ih c hc
      exact ⟨cls, by simp [classes, hcls], hcontains⟩
  | second _ ih =>
      intro c hc
      obtain ⟨cls, hcls, hcontains⟩ := ih c hc
      exact ⟨cls, by simp [classes, hcls], hcontains⟩
  | more _ _ _ ihfirst ihrest =>
      intro c hc
      exact (List.mem_append.mp hc).elim (ihfirst c) (ihrest c)

theorem spells_star_one_iff {cls : CharClass} {text : List Char} :
    (star (one cls)).Spells text ↔ ∀ c ∈ text, cls.contains c := by
  constructor
  · intro h c hc
    simpa [star, classes] using contains_of_spells h c hc
  · intro h
    induction text with
    | nil => exact .none (by decide)
    | cons c text ih =>
        obtain ⟨hc, htext⟩ := List.forall_mem_cons.mp h
        exact .more (by decide) (.one hc) (ih htext)

theorem spells_many_one_iff {cls : CharClass} {text : List Char} :
    (many (one cls)).Spells text ↔ text ≠ [] ∧ ∀ c ∈ text, cls.contains c := by
  constructor
  · intro h
    refine ⟨?_, fun c hc => by simpa [many, classes] using contains_of_spells h c hc⟩
    rintro rfl
    generalize htext : [] = text at h
    cases h with
    | none hplus => exact hplus rfl
    | once hone => cases hone; simp at htext
    | more _ hone _ => cases hone; simp at htext
  · rintro ⟨hne, htext⟩
    obtain ⟨c, text, rfl⟩ := List.exists_cons_of_ne_nil hne
    obtain ⟨hc, htext⟩ := List.forall_mem_cons.mp htext
    exact .more (by decide) (.one hc) (spells_star_one_iff.mpr htext)

end Handheld.Pattern
