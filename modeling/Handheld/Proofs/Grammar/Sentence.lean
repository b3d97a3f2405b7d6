import Handheld.Proofs.Grammar.Numbering

namespace Handheld

namespace Grammar

variable {grammar : Grammar} {start : String} {body : List Symbol}

-- Some sentence begins with these kinds, the end marker after it included.
def Viable (grammar : Grammar) (body : List Symbol) (kinds : List String) : Prop :=
  ∃ sentence, grammar.Derives body (terminals sentence) ∧ kinds <+: sentence ++ [endMarker]

def AllProductive (grammar : Grammar) (start : String) : Prop :=
  ∀ name, grammar.Reachable start name → grammar.Productive name

-- What a part of a sentence can consist of.
def IsInner (grammar : Grammar) (start : String) (symbol : Symbol) : Prop :=
  symbol ≠ .terminal endMarker ∧
    ∀ name, symbol = .nonterminal name → grammar.Reachable start name ∧ name ≠ start

namespace Terminated

variable (hterm : grammar.Terminated start body)

include hterm

theorem isInner_body : ∀ symbol ∈ body, grammar.IsInner start symbol := by
  have hoffers : grammar.Offers start (body ++ [.terminal endMarker]) := hterm.offers_start_iff.mpr rfl
  intro symbol hsymbol
  refine ⟨?_, ?_⟩
  · rintro rfl
    exact hterm.marker_notMem_body hsymbol
  · rintro name rfl
    refine ⟨.mention .start hoffers (List.mem_append_left _ hsymbol), ?_⟩
    rintro rfl
    exact hterm.start_notMem .start hoffers (List.mem_append_left _ hsymbol)

theorem isInner_rhs {lhs : String} {rhs : List Symbol} (hreach : grammar.Reachable start lhs)
    (hne : lhs ≠ start) (hoffers : grammar.Offers lhs rhs) :
    ∀ symbol ∈ rhs, grammar.IsInner start symbol := by
  intro symbol hsymbol
  refine ⟨?_, ?_⟩
  · rintro rfl
    exact hterm.marker_notMem hreach hne hoffers hsymbol
  · rintro name rfl
    refine ⟨.mention hreach hoffers hsymbol, ?_⟩
    rintro rfl
    exact hterm.start_notMem hreach hoffers hsymbol

theorem isInner_of_derives {symbols : List Symbol} (h : grammar.Derives body symbols) :
    ∀ symbol ∈ symbols, grammar.IsInner start symbol := by
  induction h with
  | refl => exact hterm.isInner_body
  | tail _ hstep ih =>
      obtain ⟨left, lhs, rhs, right, hoffers, rfl, rfl⟩ := hstep
      obtain ⟨_, hlhs⟩ := ih (.nonterminal lhs) (by simp)
      obtain ⟨hreach, hne⟩ := hlhs lhs rfl
      intro symbol hsymbol
      rcases List.mem_append.mp hsymbol with hfront | hright
      · rcases List.mem_append.mp hfront with hleft | hrhs
        · exact ih symbol (by simp [hleft])
        · exact hterm.isInner_rhs hreach hne hoffers symbol hrhs
      · exact ih symbol (by simp [hright])

-- No sentence has an end marker in it.
theorem marker_notMem_sentence {sentence : List String}
    (h : grammar.Derives body (terminals sentence)) : endMarker ∉ sentence := by
  intro hmem
  exact (hterm.isInner_of_derives h _ (List.mem_map.mpr ⟨endMarker, hmem, rfl⟩)).1 rfl

theorem exists_sentence (hproductive : grammar.AllProductive start) :
    ∃ sentence, grammar.Derives body (terminals sentence) :=
  productive_symbols fun name hname =>
    hproductive name ((hterm.isInner_body _ hname).2 name rfl).1

omit hterm in
-- A sentence of the start is a sentence of its body and the end marker.
theorem exists_sentence_of_derives {more : List String}
    (h : grammar.Derives (body ++ [.terminal endMarker]) (terminals more)) :
    ∃ sentence, grammar.Derives body (terminals sentence) ∧ more = sentence ++ [endMarker] := by
  let tokens : List (Token String) := more.map (⟨·, "", .start⟩)
  have hkinds : kinds tokens = more := by simp [tokens, kinds, Function.comp_def]
  rw [← hkinds] at h
  obtain ⟨trees, hforest⟩ := exists_forest_of_derives h
  obtain ⟨front, last, rfl, hfront, hlast⟩ := List.map_eq_append_iff.mp hforest.symbols_eq
  obtain ⟨tree, rfl, htree⟩ := List.map_eq_singleton_iff.mp hlast
  obtain ⟨token, rfl⟩ : ∃ token, tree = .leaf token := by
    cases hforest.follows tree (by simp) with
    | leaf token => exact ⟨token, rfl⟩
    | branch => simp at htree
  have hleaves := hforest.leaves_eq
  rw [ParseTree.leavesOfAll_append] at hleaves
  obtain ⟨before, after, htokens, hbefore, hafter⟩ := List.map_eq_append_iff.mp hleaves.symm
  obtain ⟨found, rfl, hfound⟩ := List.map_eq_singleton_iff.mp (by simpa using hafter)
  obtain rfl := ParseTree.leaf_injective hfound
  have hkind : found.kind = endMarker := by simpa using htree
  refine ⟨kinds before, derives_iff_exists_forest.mpr ⟨front, hfront, ?_, hbefore.symm⟩, ?_⟩
  · exact fun tree htree => hforest.follows tree (by simp [htree])
  · rw [← hkinds, htokens]
    simp [kinds, hkind]

end Terminated

-- Whether a grammar is terminated shows in its rules.
theorem terminated_of_rules
    (hrule : grammar.alternatives? start = some [body ++ [.terminal endMarker]])
    (hbody : .terminal endMarker ∉ body)
    (hrules : ∀ entry ∈ grammar.rules.entries, ∀ rhs ∈ entry.2, .nonterminal start ∉ rhs ∧
      (entry.1 ≠ start → .terminal endMarker ∉ rhs)) :
    grammar.Terminated start body := by
  refine ⟨hrule, hbody, ?_, ?_⟩
  · rintro lhs rhs _ hne ⟨alternatives, halternatives, hrhs⟩
    exact (hrules _ (Dict.mem_of_lookupIn halternatives) rhs hrhs).2 hne
  · rintro lhs rhs _ ⟨alternatives, halternatives, hrhs⟩
    exact (hrules _ (Dict.mem_of_lookupIn halternatives) rhs hrhs).1

-- Each name has an alternative that mentions only names after it.
def settledBy (grammar : Grammar) : List String → Bool
  | [] => true
  | name :: names => settledBy grammar names && ((grammar.alternatives? name).getD []).any fun rhs =>
      rhs.all fun symbol => symbol.nonterminal?.all (· ∈ names)

theorem productive_of_settledBy {names : List String} (h : grammar.settledBy names) :
    ∀ name ∈ names, grammar.Productive name := by
  induction names with
  | nil => simp
  | cons name names ih =>
      obtain ⟨hnames, halternative⟩ := Bool.and_eq_true_iff.mp h
      have hbelow := ih hnames
      intro other hother
      rcases List.mem_cons.mp hother with rfl | hother
      · obtain ⟨rhs, hrhs, hall⟩ := List.any_eq_true.mp halternative
        have hmentions (name : String) (hname : .nonterminal name ∈ rhs) : name ∈ names := by
          simpa [Symbol.nonterminal?] using List.all_eq_true.mp hall _ hname
        obtain ⟨kinds, hkinds⟩ := productive_symbols fun name hname =>
          hbelow name (hmentions name hname)
        refine ⟨kinds, (derives_of_offers ?_).trans hkinds⟩
        cases hrule : grammar.alternatives? other with
        | none => simp [hrule] at hrhs
        | some alternatives => exact ⟨alternatives, hrule, by simpa [hrule] using hrhs⟩
      · exact hbelow other hother

theorem allProductive_of_settledBy {names : List String} (h : grammar.settledBy names)
    (hstart : start ∈ names) (hmentions : ∀ name ∈ grammar.allMentions, name ∈ names) :
    grammar.AllProductive start := by
  intro name hname
  refine productive_of_settledBy h name ?_
  cases hname with
  | start => exact hstart
  | mention _ hoffers hmem =>
      exact hmentions name
        (mem_allMentions_of_mem_mentions (mem_mentions_iff.mpr ⟨_, hoffers, hmem⟩))

end Grammar

end Handheld
