import Handheld.Proofs.Automaton.Actions
import Handheld.Proofs.Automaton.States
import Handheld.Proofs.Grammar.Numbering

namespace Handheld

namespace Automaton

variable {productions : List Production} {states : List ItemSet} {entry : TableEntry}

theorem production_of_ruleNumber? {production : Production} {rule : Nat}
    (h : ruleNumber? productions production = some rule) : productions[rule]? = some production := by
  obtain ⟨place, hplace, rfl⟩ := Option.map_eq_some_iff.mp h
  obtain ⟨hlt, hget, _⟩ := List.idxOf?_eq_some_iff.mp hplace
  rw [List.length_reverse] at hlt
  rw [List.getElem_reverse] at hget
  rw [← hget, List.getElem?_eq_getElem]

theorem exists_ruleNumber? {production : Production} (h : production ∈ productions) :
    ∃ rule, ruleNumber? productions production = some rule := by
  unfold ruleNumber?
  cases hplace : productions.reverse.idxOf? production with
  | none => exact absurd h (by simpa using hplace)
  | some place => exact ⟨_, rfl⟩

-- The entry for the reading of a symbol.
def transition (state next : Nat) : Symbol → TableEntry
  | .terminal name => if name = endMarker then .accept state name else .shift state name next
  | .nonterminal name => .goto state name next

section Transition

variable {state state' next next' : Nat} {symbol : Symbol} {name : String}

@[simp] theorem transition_marker :
    transition state next (.terminal endMarker) = .accept state endMarker := by
  simp [transition]

theorem transition_terminal (h : name ≠ endMarker) :
    transition state next (.terminal name) = .shift state name next := by
  simp [transition, h]

@[simp] theorem transition_nonterminal :
    transition state next (.nonterminal name) = .goto state name next := rfl

theorem transition_eq_goto_iff : transition state next symbol = .goto state' name next' ↔
    symbol = .nonterminal name ∧ state = state' ∧ next = next' := by
  cases symbol with
  | nonterminal other => simp [and_left_comm]
  | terminal other =>
      by_cases hmarker : other = endMarker
      · simp [hmarker]
      · simp [transition_terminal hmarker]

theorem transition_eq_shift_iff : transition state next symbol = .shift state' name next' ↔
    name ≠ endMarker ∧ symbol = .terminal name ∧ state = state' ∧ next = next' := by
  cases symbol with
  | nonterminal other => simp
  | terminal other =>
      by_cases hmarker : other = endMarker
      · simp only [hmarker, transition_marker, reduceCtorEq, false_iff]
        rintro ⟨hne, hname, _⟩
        exact hne (Symbol.terminal.inj hname).symm
      · rw [transition_terminal hmarker]
        grind

theorem transition_eq_accept_iff : transition state next symbol = .accept state' name ↔
    name = endMarker ∧ symbol = .terminal name ∧ state = state' := by
  cases symbol with
  | nonterminal other => simp
  | terminal other =>
      by_cases hmarker : other = endMarker
      · simp only [hmarker, transition_marker]
        grind
      · simp only [transition_terminal hmarker, reduceCtorEq, false_iff]
        rintro ⟨rfl, hname, _⟩
        exact hmarker (Symbol.terminal.inj hname)

theorem transition_ne_reduce {rule : Nat} : transition state next symbol ≠ .reduce state' rule := by
  cases symbol with
  | nonterminal other => simp
  | terminal other =>
      by_cases hmarker : other = endMarker
      · simp [hmarker]
      · simp [transition_terminal hmarker]

end Transition

theorem mem_transitionEntries_iff :
    entry ∈ transitionEntries productions states ↔ ∃ state items symbol,
      states[state]? = some items ∧ symbol ∈ nextSymbols items ∧
        transition state (states.idxOf (target productions items symbol)) symbol = entry := by
  simp only [transitionEntries, List.mem_flatMap, List.mem_map, Prod.exists,
    List.mem_zipIdx_iff_getElem?]
  constructor
  · rintro ⟨items, state, hitems, symbol, hsymbol, rfl⟩
    exact ⟨state, items, symbol, hitems, hsymbol, rfl⟩
  · rintro ⟨state, items, symbol, hitems, hsymbol, rfl⟩
    exact ⟨items, state, hitems, symbol, hsymbol, rfl⟩

theorem mem_reduceEntries_iff :
    entry ∈ reduceEntries productions states ↔ ∃ state items item rule,
      states[state]? = some items ∧ item ∈ items ∧ item.isFinished ∧
        ruleNumber? productions item.production = some rule ∧ .reduce state rule = entry := by
  simp only [reduceEntries, List.mem_flatMap, Prod.exists, List.mem_zipIdx_iff_getElem?,
    List.mem_filterMap, List.mem_filter, Std.ExtTreeSet.mem_toList, Option.map_eq_some_iff]
  constructor
  · rintro ⟨items, state, hitems, item, ⟨hitem, hfinished⟩, rule, hrule, rfl⟩
    exact ⟨state, items, item, rule, hitems, hitem, hfinished, hrule, rfl⟩
  · rintro ⟨state, items, item, rule, hitems, hitem, hfinished, hrule, rfl⟩
    exact ⟨items, state, hitems, item, ⟨hitem, hfinished⟩, rule, hrule, rfl⟩

theorem mem_entries_iff :
    entry ∈ transitionEntries productions states ++ reduceEntries productions states ↔
      (∃ state items symbol, states[state]? = some items ∧ symbol ∈ nextSymbols items ∧
        transition state (states.idxOf (target productions items symbol)) symbol = entry) ∨
      ∃ state items item rule, states[state]? = some items ∧ item ∈ items ∧ item.isFinished ∧
        ruleNumber? productions item.production = some rule ∧ .reduce state rule = entry := by
  rw [List.mem_append, mem_transitionEntries_iff, mem_reduceEntries_iff]

theorem goto_mem_entries_iff {state next : Nat} {name : String} :
    .goto state name next ∈ transitionEntries productions states ++ reduceEntries productions states ↔
      ∃ items, states[state]? = some items ∧ .nonterminal name ∈ nextSymbols items ∧
        states.idxOf (target productions items (.nonterminal name)) = next := by
  rw [mem_entries_iff]
  constructor
  · rintro (⟨state', items, symbol, hitems, hsymbol, hentry⟩ | ⟨_, _, _, _, _, _, _, _, hentry⟩)
    · obtain ⟨rfl, rfl, rfl⟩ := transition_eq_goto_iff.mp hentry
      exact ⟨items, hitems, hsymbol, rfl⟩
    · simp at hentry
  · rintro ⟨items, hitems, hsymbol, rfl⟩
    exact .inl ⟨state, items, _, hitems, hsymbol, rfl⟩

theorem shift_mem_entries_iff {state next : Nat} {name : String} :
    .shift state name next ∈ transitionEntries productions states ++ reduceEntries productions states ↔
      name ≠ endMarker ∧ ∃ items, states[state]? = some items ∧
        .terminal name ∈ nextSymbols items ∧
          states.idxOf (target productions items (.terminal name)) = next := by
  rw [mem_entries_iff]
  constructor
  · rintro (⟨state', items, symbol, hitems, hsymbol, hentry⟩ | ⟨_, _, _, _, _, _, _, _, hentry⟩)
    · obtain ⟨hne, rfl, rfl, rfl⟩ := transition_eq_shift_iff.mp hentry
      exact ⟨hne, items, hitems, hsymbol, rfl⟩
    · simp at hentry
  · rintro ⟨hne, items, hitems, hsymbol, rfl⟩
    exact .inl ⟨state, items, _, hitems, hsymbol, transition_eq_shift_iff.mpr ⟨hne, rfl, rfl, rfl⟩⟩

theorem accept_mem_entries_iff {state : Nat} {name : String} :
    .accept state name ∈ transitionEntries productions states ++ reduceEntries productions states ↔
      name = endMarker ∧ ∃ items, states[state]? = some items ∧
        .terminal endMarker ∈ nextSymbols items := by
  rw [mem_entries_iff]
  constructor
  · rintro (⟨state', items, symbol, hitems, hsymbol, hentry⟩ | ⟨_, _, _, _, _, _, _, _, hentry⟩)
    · obtain ⟨rfl, rfl, rfl⟩ := transition_eq_accept_iff.mp hentry
      exact ⟨rfl, items, hitems, hsymbol⟩
    · simp at hentry
  · rintro ⟨rfl, items, hitems, hsymbol⟩
    exact .inl ⟨state, items, _, hitems, hsymbol, transition_eq_accept_iff.mpr ⟨rfl, rfl, rfl⟩⟩

theorem reduce_mem_entries_iff {state rule : Nat} :
    .reduce state rule ∈ transitionEntries productions states ++ reduceEntries productions states ↔
      ∃ items item, states[state]? = some items ∧ item ∈ items ∧ item.isFinished ∧
        ruleNumber? productions item.production = some rule := by
  rw [mem_entries_iff]
  constructor
  · rintro (⟨state', items, symbol, hitems, hsymbol, hentry⟩ |
      ⟨state', items, item, rule', hitems, hitem, hfinished, hrule, hentry⟩)
    · exact absurd hentry transition_ne_reduce
    · obtain ⟨rfl, rfl⟩ := by simpa using hentry
      exact ⟨items, item, hitems, hitem, hfinished, hrule⟩
  · rintro ⟨items, item, hitems, hitem, hfinished, hrule⟩
    exact .inr ⟨state, items, item, rule, hitems, hitem, hfinished, hrule, rfl⟩

theorem gotosAgree_entries :
    TableEntry.GotosAgree (· ∈ transitionEntries productions states ++ reduceEntries productions states) := by
  intro state name next next' hone htwo
  obtain ⟨items, hitems, _, rfl⟩ := goto_mem_entries_iff.mp hone
  obtain ⟨items', hitems', _, rfl⟩ := goto_mem_entries_iff.mp htwo
  obtain rfl := Option.some.inj (hitems.symm.trans hitems')
  rfl

-- A table that some of the entries have been registered in says what they say.
theorem holds_iff_mem {entries : List TableEntry}
    (hsub : entries ⊆ transitionEntries productions states ++ reduceEntries productions states)
    {tables : ActionTable × GotoTable}
    (hfold : entries.foldlM Tables.register (.empty, .empty) = .ok tables) (entry : TableEntry) :
    entry.Holds tables ↔ entry ∈ entries := by
  have hempty (other : TableEntry) := TableEntry.not_holds_empty other
  rw [TableEntry.holds_foldlM_iff hfold]
  · simp [hempty entry]
  · exact gotosAgree_entries.mono fun other hother => hsub (hother.resolve_left (hempty other))

-- The first state: rule 0 is about to be read.
def root (productions : List Production) : ItemSet :=
  closure productions (productions.head?.map Item.initial).toList

theorem production_mem_of_mem_root : ∀ item ∈ root productions, item.production ∈ productions := by
  intro item hitem
  refine (mem_closure_iff.mp hitem).production_mem fun first hfirst => ?_
  obtain ⟨production, hproduction, rfl⟩ := by simpa using hfirst
  exact List.mem_of_mem_head? hproduction

end Automaton

namespace Tables

open Automaton

variable {grammar : Grammar} {start : String} {tables : Tables}

-- What tables built from a grammar are.
structure Built (grammar : Grammar) (start : String) (tables : Tables) : Prop where
  productions_eq : grammar.productions? start = .ok tables.productions
  start_eq : tables.start = start
  states_eq : tables.states = Automaton.states tables.productions (root tables.productions)
  holds_iff (entry : TableEntry) : entry.Holds (tables.actions, tables.gotos) ↔
    entry ∈ transitionEntries tables.productions tables.states ++
      reduceEntries tables.productions tables.states

theorem built_of_build (h : build grammar start = .ok tables) : Built grammar start tables := by
  unfold build at h
  obtain ⟨productions, hproductions, h⟩ := bind_eq_ok_iff.mp h
  obtain ⟨⟨actions, gotos⟩, hfold, h⟩ := bind_eq_ok_iff.mp h
  obtain rfl := Except.ok.inj h
  exact ⟨mapError_eq_ok_iff.mp hproductions, rfl, rfl,
    holds_iff_mem (fun _ hentry => hentry) (mapError_eq_ok_iff.mp hfold)⟩

-- An item stands in a state.
def HasItem (tables : Tables) (state : Nat) (item : Item) : Prop :=
  ∃ items, tables.states[state]? = some items ∧ item ∈ items

-- Where to go on from a state after reading a symbol.
def enter? (tables : Tables) (state : Nat) : Symbol → Option Nat
  | .terminal name => match tables.action? state name with
    | some (.shift next) => some next
    | _ => none
  | .nonterminal name => tables.goto? state name

theorem enter?_terminal_iff {state next : Nat} {name : String} :
    tables.enter? state (.terminal name) = some next ↔
      tables.action? state name = some (.shift next) := by
  simp only [enter?]
  split <;> simp_all

namespace Built

variable (hbuilt : Built grammar start tables) {state next : Nat} {symbol : Symbol} {item : Item}

include hbuilt

theorem exists_production_zero : ∃ first, tables.productions.head? = some first := by
  obtain ⟨_, hne, _⟩ := Grammar.productions?_eq_ok_iff.mp hbuilt.productions_eq
  exact ⟨_, List.head?_eq_some_head hne⟩

theorem states_zero : tables.states[0]? = some (root tables.productions) := by
  obtain ⟨others, hothers⟩ := states_eq_cons tables.productions (root tables.productions)
  rw [hbuilt.states_eq, hothers, List.getElem?_cons_zero]

theorem mem_states {items : ItemSet} (h : tables.states[state]? = some items) :
    items ∈ Automaton.states tables.productions (root tables.productions) :=
  hbuilt.states_eq ▸ List.mem_of_getElem? h

theorem enter?_eq_some_iff :
    tables.enter? state symbol = some next ↔ symbol.isEndMarker = false ∧
      ∃ items, tables.states[state]? = some items ∧ symbol ∈ nextSymbols items ∧
        tables.states.idxOf (target tables.productions items symbol) = next := by
  cases symbol with
  | terminal name =>
      rw [enter?_terminal_iff, action?, ActionTable.action?_eq_shift_iff]
      refine (hbuilt.holds_iff (.shift state name next)).trans (shift_mem_entries_iff.trans ?_)
      simp [Symbol.isEndMarker]
  | nonterminal name =>
      refine (hbuilt.holds_iff (.goto state name next)).trans (goto_mem_entries_iff.trans ?_)
      simp [Symbol.isEndMarker]

theorem states_of_enter? {items : ItemSet} (hitems : tables.states[state]? = some items)
    (h : tables.enter? state symbol = some next) :
    tables.states[next]? = some (target tables.productions items symbol) := by
  obtain ⟨hmarker, items', hitems', hsymbol, rfl⟩ := hbuilt.enter?_eq_some_iff.mp h
  obtain rfl := Option.some.inj (hitems.symm.trans hitems')
  refine List.getElem?_idxOf ?_
  rw [hbuilt.states_eq]
  exact target_mem_states production_mem_of_mem_root (hbuilt.mem_states hitems) hsymbol hmarker

-- A state can be left by the symbols after its cursors and by no others.
theorem exists_enter?_iff :
    (∃ next, tables.enter? state symbol = some next) ↔ symbol.isEndMarker = false ∧
      ∃ item, tables.HasItem state item ∧ item.next? = some symbol := by
  simp only [hbuilt.enter?_eq_some_iff, mem_nextSymbols_iff, HasItem]
  constructor
  · rintro ⟨_, hmarker, items, hitems, ⟨item, hitem, hnext⟩, _⟩
    exact ⟨hmarker, item, ⟨items, hitems, hitem⟩, hnext⟩
  · rintro ⟨hmarker, item, ⟨items, hitems, hitem⟩, hnext⟩
    exact ⟨_, hmarker, items, hitems, ⟨item, hitem, hnext⟩, rfl⟩

theorem kind_ne_of_shift {terminal : String}
    (haction : tables.action? state terminal = some (.shift next)) : terminal ≠ endMarker := by
  obtain ⟨hmarker, _⟩ := hbuilt.exists_enter?_iff.mp ⟨next, enter?_terminal_iff.mpr haction⟩
  simpa [Symbol.isEndMarker] using hmarker

theorem lt_of_enter? (h : tables.enter? state symbol = some next) : next < tables.states.length := by
  obtain ⟨_, items, hitems, _⟩ := hbuilt.enter?_eq_some_iff.mp h
  exact (List.getElem?_eq_some_iff.mp (hbuilt.states_of_enter? hitems h)).1

theorem hasItem_advanced (hitem : tables.HasItem state item) (hnext : item.next? = some symbol)
    (h : tables.enter? state symbol = some next) : tables.HasItem next item.advanced := by
  obtain ⟨items, hitems, hmem⟩ := hitem
  exact ⟨_, hbuilt.states_of_enter? hitems h, advanced_mem_target hmem hnext⟩

-- An item that has read something stood in the state before.
theorem exists_of_hasItem (h : tables.enter? state symbol = some next)
    (hitem : tables.HasItem next item) (hcursor : item.cursor ≠ 0) :
    ∃ before, tables.HasItem state before ∧ before.next? = some symbol ∧ before.advanced = item := by
  obtain ⟨_, items, hitems, _⟩ := hbuilt.enter?_eq_some_iff.mp h
  obtain ⟨items', hitems', hmem⟩ := hitem
  obtain rfl := Option.some.inj ((hbuilt.states_of_enter? hitems h).symm.trans hitems')
  obtain ⟨before, hbefore, hnext, rfl⟩ := exists_of_mem_target hmem hcursor
  exact ⟨before, ⟨items, hitems, hbefore⟩, hnext, rfl⟩

-- The items of a state that have read nothing come from the nonterminals after its other cursors.
theorem hasItem_induction {P : Item → Prop} (h : tables.enter? state symbol = some next)
    (hkernel : ∀ before, tables.HasItem state before → before.next? = some symbol → P before.advanced)
    (hinitial : ∀ item production, tables.HasItem next item → P item →
      item.next? = some (.nonterminal production.lhs) → production ∈ tables.productions →
      P (.initial production)) (hitem : tables.HasItem next item) : P item := by
  obtain ⟨_, items, hitems, _⟩ := hbuilt.enter?_eq_some_iff.mp h
  have hnext := hbuilt.states_of_enter? hitems h
  obtain ⟨items', hitems', hmem⟩ := hitem
  obtain rfl := Option.some.inj (hnext.symm.trans hitems')
  have hclosure := mem_target_iff.mp hmem
  clear hmem
  induction hclosure with
  | kernel hadvances =>
      obtain ⟨before, hbefore, hsymbol, rfl⟩ := mem_advances_iff.mp hadvances
      exact hkernel before ⟨items, hitems, hbefore⟩ hsymbol
  | initial hbefore hsymbol hmem ih =>
      exact hinitial _ _ ⟨_, hnext, mem_target_iff.mpr hbefore⟩ ih hsymbol hmem

theorem hasItem_zero_induction {P : Item → Prop} {first : Production}
    (hfirst : tables.productions.head? = some first) (hkernel : P (.initial first))
    (hinitial : ∀ item production, tables.HasItem 0 item → P item →
      item.next? = some (.nonterminal production.lhs) → production ∈ tables.productions →
      P (.initial production)) (hitem : tables.HasItem 0 item) : P item := by
  obtain ⟨items, hitems, hmem⟩ := hitem
  obtain rfl := Option.some.inj (hbuilt.states_zero.symm.trans hitems)
  have hclosure := mem_closure_iff.mp hmem
  clear hmem
  induction hclosure with
  | kernel hmem =>
      obtain rfl := by simpa [hfirst] using hmem
      exact hkernel
  | initial hbefore hsymbol hmem ih =>
      exact hinitial _ _ ⟨_, hitems, mem_closure_iff.mpr hbefore⟩ ih hsymbol hmem

theorem hasItem_zero {first : Production} (hfirst : tables.productions.head? = some first) :
    tables.HasItem 0 (.initial first) :=
  ⟨_, hbuilt.states_zero, mem_closure_iff.mpr (.kernel (by simp [hfirst]))⟩

theorem production_mem (hitem : tables.HasItem state item) : item.production ∈ tables.productions := by
  obtain ⟨items, hitems, hmem⟩ := hitem
  exact production_mem_of_mem_states production_mem_of_mem_root (hbuilt.mem_states hitems) item hmem

-- With an item before a nonterminal, all productions of that nonterminal are about to be read.
theorem hasItem_initial {production : Production} (hitem : tables.HasItem state item)
    (hnext : item.next? = some (.nonterminal production.lhs))
    (hmem : production ∈ tables.productions) : tables.HasItem state (.initial production) := by
  obtain ⟨items, hitems, hitem⟩ := hitem
  refine ⟨items, hitems, ?_⟩
  refine states_induction (P := fun items => item ∈ items → Item.initial production ∈ items) ?_ ?_
    (hbuilt.mem_states hitems) hitem
  · intro hitem
    exact mem_closure_iff.mpr (.initial (mem_closure_iff.mp hitem) hnext hmem)
  · intro items symbol _ _ _ hitem
    exact mem_target_iff.mpr (.initial (mem_target_iff.mp hitem) hnext hmem)

theorem action?_eq_reduce_iff {rule : Nat} {terminal : String} :
    tables.action? state terminal = some (.reduce rule) ↔
      ∃ item, tables.HasItem state item ∧ item.isFinished ∧
        ruleNumber? tables.productions item.production = some rule := by
  rw [action?, ActionTable.action?_eq_reduce_iff]
  refine (hbuilt.holds_iff (.reduce state rule)).trans (reduce_mem_entries_iff.trans ?_)
  constructor
  · rintro ⟨items, item, hitems, hitem, hfinished, hrule⟩
    exact ⟨item, ⟨items, hitems, hitem⟩, hfinished, hrule⟩
  · rintro ⟨item, ⟨items, hitems, hitem⟩, hfinished, hrule⟩
    exact ⟨items, item, hitems, hitem, hfinished, hrule⟩

theorem action?_eq_accept_iff {terminal : String} :
    tables.action? state terminal = some .accept ↔ terminal = endMarker ∧
      ∃ item, tables.HasItem state item ∧ item.next? = some (.terminal endMarker) := by
  rw [action?, ActionTable.action?_eq_accept_iff]
  refine (hbuilt.holds_iff (.accept state terminal)).trans (accept_mem_entries_iff.trans ?_)
  simp only [mem_nextSymbols_iff, HasItem]
  constructor
  · rintro ⟨rfl, items, hitems, item, hitem, hnext⟩
    exact ⟨rfl, item, ⟨items, hitems, hitem⟩, hnext⟩
  · rintro ⟨rfl, item, ⟨items, hitems, hitem⟩, hnext⟩
    exact ⟨rfl, items, hitems, item, hitem, hnext⟩

-- The rule of a reduce is the production of a finished item.
theorem production?_of_reduce {rule : Nat} {terminal : String}
    (h : tables.action? state terminal = some (.reduce rule)) :
    ∃ item, tables.HasItem state item ∧ item.isFinished ∧
      tables.production? rule = some item.production := by
  obtain ⟨item, hitem, hfinished, hrule⟩ := hbuilt.action?_eq_reduce_iff.mp h
  exact ⟨item, hitem, hfinished, production_of_ruleNumber? hrule⟩

theorem exists_reduce_of_isFinished (hitem : tables.HasItem state item) (hfinished : item.isFinished) :
    ∃ rule, tables.production? rule = some item.production ∧
      ∀ terminal, tables.action? state terminal = some (.reduce rule) := by
  obtain ⟨rule, hrule⟩ := exists_ruleNumber? (hbuilt.production_mem hitem)
  exact ⟨rule, production_of_ruleNumber? hrule,
    fun _ => hbuilt.action?_eq_reduce_iff.mpr ⟨item, hitem, hfinished, hrule⟩⟩

end Built

end Tables

end Handheld
