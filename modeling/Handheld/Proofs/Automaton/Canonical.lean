import Handheld.Proofs.Automaton.Tables

namespace Handheld

-- The items of a set that can read a symbol, once they have read it.
def ItemSet.Advances (items : ItemSet) (symbol : Symbol) (item : Item) : Prop :=
  ∃ before ∈ items, before.next? = some symbol ∧ before.advanced = item

namespace Grammar

-- The least set of items that holds a kernel and, with an item before a nonterminal, all alternatives of
-- that nonterminal from their beginnings.
inductive InClosure (grammar : Grammar) (kernel : Item → Prop) : Item → Prop
  | kernel {item : Item} : kernel item → InClosure grammar kernel item
  | initial {item : Item} {lhs : String} {rhs : List Symbol} : InClosure grammar kernel item →
      item.next? = some (.nonterminal lhs) → grammar.Offers lhs rhs →
      InClosure grammar kernel (.initial ⟨lhs, rhs⟩)

def IsClosure (grammar : Grammar) (kernel : Item → Prop) (items : ItemSet) : Prop :=
  ∀ item, item ∈ items ↔ grammar.InClosure kernel item

variable {grammar : Grammar} {start : String} {productions : List Production}

theorem Reachable.of_next? {item : Item} {lhs : String}
    (hproductions : grammar.productions? start = .ok productions) (hitem : item.production ∈ productions)
    (hnext : item.next? = some (.nonterminal lhs)) : grammar.Reachable start lhs := by
  obtain ⟨hreach, hoffers⟩ := (mem_productions_iff hproductions).mp hitem
  exact .mention hreach hoffers (List.mem_of_getElem? hnext)

-- Only alternatives of reachable nonterminals come into a closure, and these are the productions.
theorem inClosure_iff (hproductions : grammar.productions? start = .ok productions)
    {kernel : List Item} (hkernel : ∀ item ∈ kernel, item.production ∈ productions) {item : Item} :
    grammar.InClosure (· ∈ kernel) item ↔ Automaton.InClosure productions kernel item := by
  constructor
  · intro h
    induction h with
    | kernel hitem => exact .kernel hitem
    | initial _ hnext hoffers ih =>
        have hreach := Reachable.of_next? hproductions (ih.production_mem hkernel) hnext
        exact .initial ih hnext ((mem_productions_iff hproductions).mpr ⟨hreach, hoffers⟩)
  · intro h
    induction h with
    | kernel hitem => exact .kernel hitem
    | initial _ hnext hmem ih =>
        exact .initial ih hnext ((mem_productions_iff hproductions).mp hmem).2

theorem isClosure_closure (hproductions : grammar.productions? start = .ok productions)
    {kernel : List Item} (hkernel : ∀ item ∈ kernel, item.production ∈ productions) :
    grammar.IsClosure (· ∈ kernel) (Automaton.closure productions kernel) :=
  fun _ => Automaton.mem_closure_iff.trans (inClosure_iff hproductions hkernel).symm

theorem isClosure_root (hproductions : grammar.productions? start = .ok productions)
    {first : Production} (hfirst : productions.head? = some first) :
    grammar.IsClosure (· = .initial first) (Automaton.root productions) := by
  have hkernel : ∀ item ∈ [Item.initial first], item.production ∈ productions := by
    simpa using List.mem_of_mem_head? hfirst
  simpa [Automaton.root, hfirst] using isClosure_closure hproductions hkernel

theorem isClosure_target (hproductions : grammar.productions? start = .ok productions)
    {items : ItemSet} (hitems : ∀ item ∈ items, item.production ∈ productions) (symbol : Symbol) :
    grammar.IsClosure (items.Advances symbol) (Automaton.target productions items symbol) := by
  have hadvances : items.Advances symbol = (· ∈ Automaton.advances items symbol) := by
    funext item
    exact propext Automaton.mem_advances_iff.symm
  have hkernel : ∀ item ∈ Automaton.advances items symbol, item.production ∈ productions := by
    intro item hitem
    obtain ⟨before, hbefore, _, rfl⟩ := Automaton.mem_advances_iff.mp hitem
    exact hitems before hbefore
  rw [hadvances]
  exact isClosure_closure hproductions hkernel

end Grammar

namespace Tables

-- The tables are those of the canonical automaton: its states are the closures that can be reached from
-- rule 0 by reading symbols, each of them once, and its entries say what the items of a state can do.
structure IsCanonical (grammar : Grammar) (tables : Tables) : Prop where
  distinct {state state' : Nat} {items : ItemSet} : tables.states[state]? = some items →
    tables.states[state']? = some items → state = state'
  root : ∃ first items, tables.production? 0 = some first ∧ tables.states[0]? = some items ∧
    grammar.IsClosure (· = .initial first) items
  reached {state : Nat} : state < tables.states.length →
    Relation.ReflTransGen (fun before after => ∃ symbol, tables.enter? before symbol = some after) 0 state
  left_iff {state : Nat} {items : ItemSet} {symbol : Symbol} : tables.states[state]? = some items →
    symbol ≠ .terminal endMarker →
      ((∃ next, tables.enter? state symbol = some next) ↔ ∃ item ∈ items, item.next? = some symbol)
  entered {state next : Nat} {items : ItemSet} {symbol : Symbol} : tables.states[state]? = some items →
    tables.enter? state symbol = some next →
      ∃ target, tables.states[next]? = some target ∧ grammar.IsClosure (items.Advances symbol) target
  accepts_iff {state : Nat} {items : ItemSet} : tables.states[state]? = some items →
    (tables.action? state endMarker = some .accept ↔
      ∃ item ∈ items, item.next? = some (.terminal endMarker))
  reduces_iff {state : Nat} {items : ItemSet} : tables.states[state]? = some items →
    ((∃ rule, tables.actions.reduce? state = some rule) ↔ ∃ item ∈ items, item.isFinished)
  reduced {state rule : Nat} {items : ItemSet} : tables.states[state]? = some items →
    tables.actions.reduce? state = some rule →
      (∀ terminal, tables.action? state terminal = some (.reduce rule)) ∧
        ∀ item ∈ items, item.isFinished → tables.production? rule = some item.production

variable {grammar : Grammar} {start : String} {tables : Tables}

theorem hasItem_iff {state : Nat} {items : ItemSet} (hitems : tables.states[state]? = some items)
    {item : Item} : tables.HasItem state item ↔ item ∈ items := by
  simp [HasItem, hitems]

namespace Built

open Automaton

variable (hbuilt : Built grammar start tables) {state next : Nat} {items : ItemSet} {symbol : Symbol}

include hbuilt

theorem state_unique {state' : Nat} (h : tables.states[state]? = some items)
    (h' : tables.states[state']? = some items) : state = state' := by
  obtain ⟨hlt, _⟩ := List.getElem?_eq_some_iff.mp h
  have hnodup : tables.states.Nodup := hbuilt.states_eq ▸ nodup_states _ _
  exact (List.getElem?_inj hlt hnodup).mp (h.trans h'.symm)

theorem production_mem_of_mem (hitems : tables.states[state]? = some items) :
    ∀ item ∈ items, item.production ∈ tables.productions :=
  production_mem_of_mem_states production_mem_of_mem_root (hbuilt.mem_states hitems)

-- Each state can be reached through the entries.
theorem reached (hlt : state < tables.states.length) :
    Relation.ReflTransGen (fun before after => ∃ symbol, tables.enter? before symbol = some after)
      0 state := by
  have hstate := List.getElem?_eq_getElem hlt
  generalize tables.states[state] = items at hstate
  have hreach := (mem_states_iff production_mem_of_mem_root).mp (hbuilt.mem_states hstate)
  clear hlt
  induction hreach generalizing state with
  | refl => exact hbuilt.state_unique hbuilt.states_zero hstate ▸ .refl
  | @tail items target hreach htarget ih =>
      obtain ⟨symbol, hsymbol, hmarker, rfl⟩ := mem_targets_iff.mp htarget
      have hitems : items ∈ tables.states := by
        rw [hbuilt.states_eq]
        exact (mem_states_iff production_mem_of_mem_root).mpr hreach
      obtain ⟨before, hbefore⟩ := List.mem_iff_getElem?.mp hitems
      have henter := hbuilt.enter?_eq_some_iff.mpr ⟨hmarker, items, hbefore, hsymbol, rfl⟩
      have hsame := hbuilt.state_unique hstate (hbuilt.states_of_enter? hbefore henter)
      exact (ih hbefore).tail ⟨symbol, hsame ▸ henter⟩

theorem reduce?_eq_some_iff {rule : Nat} (hitems : tables.states[state]? = some items) :
    tables.actions.reduce? state = some rule ↔ ∃ item ∈ items, item.isFinished ∧
      ruleNumber? tables.productions item.production = some rule := by
  have hrow : tables.actions.reduce? state = some rule ↔
      tables.action? state endMarker = some (.reduce rule) := ActionTable.action?_eq_reduce_iff.symm
  simp only [hrow, hbuilt.action?_eq_reduce_iff, hasItem_iff hitems]

end Built

-- Tables are built as the canonical automaton of their grammar.
theorem build_isCanonical (hbuild : build grammar start = .ok tables) : tables.IsCanonical grammar := by
  have hbuilt := built_of_build hbuild
  have hproductions := hbuilt.productions_eq
  obtain ⟨first, hfirst⟩ := hbuilt.exists_production_zero
  constructor
  case distinct => exact hbuilt.state_unique
  case root =>
    refine ⟨first, _, ?_, hbuilt.states_zero, Grammar.isClosure_root hproductions hfirst⟩
    rw [production?, ← List.head?_eq_getElem?, hfirst]
  case reached => exact hbuilt.reached
  case left_iff =>
    intro state items symbol hitems hmarker
    simp [hbuilt.exists_enter?_iff, hasItem_iff hitems, Symbol.isEndMarker, hmarker]
  case entered =>
    intro state next items symbol hitems henter
    exact ⟨_, hbuilt.states_of_enter? hitems henter,
      Grammar.isClosure_target hproductions (hbuilt.production_mem_of_mem hitems) symbol⟩
  case accepts_iff =>
    intro state items hitems
    simp [hbuilt.action?_eq_accept_iff, hasItem_iff hitems]
  case reduces_iff =>
    intro state items hitems
    simp only [hbuilt.reduce?_eq_some_iff hitems]
    constructor
    · rintro ⟨rule, item, hitem, hfinished, _⟩
      exact ⟨item, hitem, hfinished⟩
    · rintro ⟨item, hitem, hfinished⟩
      obtain ⟨rule, hrule⟩ := Automaton.exists_ruleNumber? (hbuilt.production_mem_of_mem hitems item hitem)
      exact ⟨rule, item, hitem, hfinished, hrule⟩
  case reduced =>
    intro state rule items hitems hreduce
    have haction (terminal : String) : tables.action? state terminal = some (.reduce rule) :=
      ActionTable.action?_eq_reduce_iff.mpr hreduce
    refine ⟨haction, fun item hitem hfinished => ?_⟩
    have hitem' := (hasItem_iff hitems).mpr hitem
    obtain ⟨rule', hproduction, hreduce'⟩ := hbuilt.exists_reduce_of_isFinished hitem' hfinished
    obtain rfl : rule' = rule := by simpa [haction] using (hreduce' endMarker).symm
    exact hproduction

-- Sums of numbers.
def sums : Grammar :=
  .ofRules [("start", [[.nonterminal "sum", .terminal endMarker]]),
    ("sum", [[.nonterminal "sum", .terminal "plus", .terminal "number"], [.terminal "number"]])]

theorem build_isCanonical_sums :
    ∃ tables, build sums "start" = .ok tables ∧ tables.IsCanonical sums := by
  obtain ⟨tables, hbuild⟩ := exists_of_isOk (x := build sums "start") (by decide +kernel)
  exact ⟨tables, hbuild, build_isCanonical hbuild⟩

end Tables

end Handheld
