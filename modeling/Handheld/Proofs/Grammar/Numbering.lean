import Handheld.Proofs.Data.BreadthFirst
import Handheld.Proofs.Data.Except
import Handheld.Proofs.Grammar.Derivation

namespace Handheld

namespace Dict

theorem mem_of_lookupIn {κ ν : Type} [DecidableEq κ] {entries : List (κ × ν)} {key : κ} {value : ν}
    (h : lookupIn key entries = some value) : (key, value) ∈ entries := by
  induction entries with
  | nil => simp [lookupIn] at h
  | cons entry entries ih =>
      obtain ⟨k, v⟩ := entry
      simp only [lookupIn] at h
      split at h
      · simp_all
      · exact List.mem_cons_of_mem _ (ih h)

end Dict

namespace Grammar

variable {grammar : Grammar} {start : String} {productions : List Production}

theorem mem_allMentions_of_mem_mentions {lhs name : String} (h : name ∈ grammar.mentions lhs) :
    name ∈ grammar.allMentions := by
  obtain ⟨symbol, hsymbol, hname⟩ := List.mem_filterMap.mp h
  refine List.mem_filterMap.mpr ⟨symbol, ?_, hname⟩
  cases hrule : grammar.alternatives? lhs with
  | none => simp [hrule] at hsymbol
  | some alternatives =>
      have hvalue : alternatives ∈ grammar.rules.values :=
        List.mem_map_of_mem (Dict.mem_of_lookupIn hrule)
      rw [hrule, Option.getD_some] at hsymbol
      obtain ⟨rhs, hrhs, hsymbol⟩ := List.mem_flatten.mp hsymbol
      exact List.mem_flatten.mpr ⟨rhs, List.mem_flatten.mpr ⟨alternatives, hvalue, hrhs⟩, hsymbol⟩

theorem reachable_iff {name : String} :
    grammar.Reachable start name ↔
      Relation.ReflTransGen (fun lhs name => name ∈ grammar.mentions lhs) start name := by
  constructor
  · intro h
    induction h with
    | start => exact .refl
    | mention _ hoffer hname ih => exact ih.tail (mem_mentions_iff.mpr ⟨_, hoffer, hname⟩)
  · intro h
    induction h with
    | refl => exact .start
    | tail _ hmention ih =>
        obtain ⟨rhs, hoffer, hname⟩ := mem_mentions_iff.mp hmention
        exact .mention ih hoffer hname

-- The start and everything that is mentioned somewhere. No search leaves it.
def names (grammar : Grammar) (start : String) : Finset String :=
  (start :: grammar.allMentions).toFinset

theorem start_mem_names (grammar : Grammar) (start : String) : start ∈ grammar.names start := by
  simp [names]

theorem mentions_mem_names (grammar : Grammar) (start : String) :
    ∀ lhs ∈ grammar.names start, ∀ name ∈ grammar.mentions lhs, name ∈ grammar.names start := by
  intro lhs _ name hname
  simp [names, mem_allMentions_of_mem_mentions hname]

theorem card_names_le (grammar : Grammar) (start : String) :
    (grammar.names start).card ≤ grammar.allMentions.length + 1 :=
  List.toFinset_card_le _

theorem mem_reachable_iff {name : String} :
    name ∈ grammar.reachable start ↔ grammar.Reachable start name := by
  have hqueue : ∀ a ∈ [start], a ∈ grammar.names start := by
    simpa using start_mem_names grammar start
  rw [reachable, mem_explore_iff _ hqueue (mentions_mem_names grammar start) (card_names_le grammar start),
    reachable_iff]
  simp

theorem reachable_eq_cons (grammar : Grammar) (start : String) :
    ∃ others, grammar.reachable start = start :: others := by
  obtain ⟨others, hothers⟩ := seen_prefix_explore grammar.mentions grammar.allMentions.length
    (grammar.mentions start) [start]
  exact ⟨others, by rw [reachable, explore]; simpa using hothers.symm⟩

theorem start_mem_reachable (grammar : Grammar) (start : String) : start ∈ grammar.reachable start :=
  mem_reachable_iff.mpr .start

-- The productions of a nonterminal, in the order in which its alternatives were given.
def block (grammar : Grammar) (name : String) : List Production :=
  ((grammar.alternatives? name).getD []).map (⟨name, ·⟩)

def firstUndefined? (grammar : Grammar) (names : List String) : Option String :=
  names.find? fun name => grammar.alternatives? name = none

theorem firstUndefined?_eq_none_iff {names : List String} : grammar.firstUndefined? names = none ↔
    ∀ name ∈ names, ∃ alternatives, grammar.alternatives? name = some alternatives := by
  simp [firstUndefined?, Option.ne_none_iff_exists']

theorem mem_block_iff {name : String} {production : Production} :
    production ∈ grammar.block name ↔ production.lhs = name ∧ grammar.Offers name production.rhs := by
  obtain ⟨lhs, rhs⟩ := production
  unfold block Offers
  cases grammar.alternatives? name with
  | none => simp
  | some alternatives =>
      simp only [Option.getD_some, List.mem_map, Production.mk.injEq, Option.some.injEq]
      constructor
      · rintro ⟨_, hrhs, rfl, rfl⟩
        exact ⟨rfl, alternatives, rfl, hrhs⟩
      · rintro ⟨rfl, _, rfl, hrhs⟩
        exact ⟨rhs, hrhs, rfl, rfl⟩

theorem mapM_productionsOf? (names : List String) : names.mapM grammar.productionsOf? =
    match grammar.firstUndefined? names with
    | some name => .error (.unknownRule name)
    | none => .ok (names.map grammar.block) := by
  induction names with
  | nil => rfl
  | cons name names ih =>
      rw [List.mapM_cons, ih]
      cases hrule : grammar.alternatives? name with
      | none => simp [productionsOf?, firstUndefined?, hrule, bind, Except.bind]
      | some alternatives =>
          have hblock : grammar.productionsOf? name = .ok (grammar.block name) := by
            simp [productionsOf?, block, hrule]
          have hfirst : grammar.firstUndefined? (name :: names) = grammar.firstUndefined? names := by
            simp [firstUndefined?, hrule]
          rw [hblock, hfirst]
          cases grammar.firstUndefined? names <;> rfl

-- The numbering of productions in full.
theorem productions?_eq (grammar : Grammar) (start : String) : grammar.productions? start =
    match grammar.firstUndefined? (grammar.reachable start) with
    | some name => .error (.unknownRule name)
    | none => match (grammar.reachable start).flatMap grammar.block with
      | [] => .error (.noProductions start)
      | productions => .ok productions := by
  rw [productions?, mapM_productionsOf?]
  cases grammar.firstUndefined? (grammar.reachable start) with
  | some name => rfl
  | none => rfl

theorem productions?_eq_ok_iff : grammar.productions? start = .ok productions ↔
    grammar.firstUndefined? (grammar.reachable start) = none ∧ productions ≠ [] ∧
      productions = (grammar.reachable start).flatMap grammar.block := by
  rw [productions?_eq]
  cases grammar.firstUndefined? (grammar.reachable start) with
  | some name => simp
  | none =>
      dsimp only
      split
      · rename_i hempty
        simp [hempty]
      · rename_i hne
        simp only [Except.ok.injEq, true_and]
        constructor
        · rintro rfl
          exact ⟨fun hempty => hne hempty, rfl⟩
        · exact fun h => h.2.symm

theorem exists_productions? {rhs : List Symbol} {alternatives : List (List Symbol)}
    (hdefined : ∀ name, grammar.Reachable start name →
      ∃ alternatives, grammar.alternatives? name = some alternatives)
    (hstart : grammar.alternatives? start = some (rhs :: alternatives)) :
    ∃ productions, grammar.productions? start = .ok productions := by
  have hfirst : grammar.firstUndefined? (grammar.reachable start) = none :=
    firstUndefined?_eq_none_iff.mpr fun name hname => hdefined name (mem_reachable_iff.mp hname)
  have hmem : ⟨start, rhs⟩ ∈ (grammar.reachable start).flatMap grammar.block :=
    List.mem_flatMap.mpr ⟨start, start_mem_reachable grammar start, by simp [block, hstart]⟩
  exact ⟨_, productions?_eq_ok_iff.mpr ⟨hfirst, List.ne_nil_of_mem hmem, rfl⟩⟩

-- The productions are the alternatives of what can be reached from the start.
theorem mem_productions_iff (h : grammar.productions? start = .ok productions)
    {production : Production} :
    production ∈ productions ↔
      grammar.Reachable start production.lhs ∧ grammar.Offers production.lhs production.rhs := by
  obtain ⟨_, _, rfl⟩ := productions?_eq_ok_iff.mp h
  rw [List.mem_flatMap]
  constructor
  · rintro ⟨lhs, hlhs, hmem⟩
    obtain ⟨rfl, hoffers⟩ := mem_block_iff.mp hmem
    exact ⟨mem_reachable_iff.mp hlhs, hoffers⟩
  · rintro ⟨hreach, hoffers⟩
    exact ⟨production.lhs, mem_reachable_iff.mpr hreach, mem_block_iff.mpr ⟨rfl, hoffers⟩⟩

-- Rule 0 is the first alternative of the start.
theorem head?_productions {rhs : List Symbol} {alternatives : List (List Symbol)}
    (h : grammar.productions? start = .ok productions)
    (hrule : grammar.alternatives? start = some (rhs :: alternatives)) :
    productions.head? = some ⟨start, rhs⟩ := by
  obtain ⟨_, _, rfl⟩ := productions?_eq_ok_iff.mp h
  obtain ⟨others, hothers⟩ := reachable_eq_cons grammar start
  simp [hothers, block, hrule]

end Grammar

end Handheld
