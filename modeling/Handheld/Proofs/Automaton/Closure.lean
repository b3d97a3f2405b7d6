import Handheld.Automaton.Tables
import Handheld.Proofs.Data.BreadthFirst
import Handheld.Proofs.Grammar.Derivation

namespace Handheld

namespace Item

@[simp] theorem production_initial (production : Production) :
    (initial production).production = production := rfl

@[simp] theorem cursor_initial (production : Production) : (initial production).cursor = 0 := rfl

@[simp] theorem next?_initial (production : Production) :
    (initial production).next? = production.rhs.head? := by
  simp [next?, List.head?_eq_getElem?]

@[simp] theorem production_advanced (item : Item) : item.advanced.production = item.production := rfl

theorem eq_of_isFinished {item other : Item} (h : item.production = other.production)
    (hitem : item.isFinished) (hother : other.isFinished) : item = other := by
  obtain ⟨production, cursor, _⟩ := item
  obtain ⟨production', cursor', _⟩ := other
  simp only [isFinished, decide_eq_true_eq] at hitem hother
  simp_all

theorem cursor_lt_of_next? {item : Item} {symbol : Symbol} (h : item.next? = some symbol) :
    item.cursor < item.production.rhs.length :=
  (List.getElem?_eq_some_iff.mp h).1

theorem cursor_advanced {item : Item} {symbol : Symbol} (h : item.next? = some symbol) :
    item.advanced.cursor = item.cursor + 1 :=
  Nat.min_eq_left (cursor_lt_of_next? h)

-- Reading on moves one symbol from what is to come to what has been read.
theorem take_cursor_advanced {item : Item} {symbol : Symbol} (h : item.next? = some symbol) :
    item.production.rhs.take item.advanced.cursor =
      item.production.rhs.take item.cursor ++ [symbol] := by
  obtain ⟨hlt, hget⟩ := List.getElem?_eq_some_iff.mp h
  rw [cursor_advanced h, List.take_succ_eq_append_getElem hlt, hget]

theorem drop_cursor {item : Item} {symbol : Symbol} (h : item.next? = some symbol) :
    item.production.rhs.drop item.cursor =
      symbol :: item.production.rhs.drop item.advanced.cursor := by
  obtain ⟨hlt, hget⟩ := List.getElem?_eq_some_iff.mp h
  rw [cursor_advanced h, List.drop_eq_getElem_cons hlt, hget]

end Item

namespace Automaton

-- The least set of items that holds a kernel and, with an item before a nonterminal, all productions
-- of that nonterminal from their beginnings.
inductive InClosure (productions : List Production) (kernel : List Item) : Item → Prop
  | kernel {item : Item} : item ∈ kernel → InClosure productions kernel item
  | initial {item : Item} {production : Production} : InClosure productions kernel item →
      item.next? = some (.nonterminal production.lhs) → production ∈ productions →
      InClosure productions kernel (.initial production)

variable {productions : List Production}

theorem mem_leading_iff {lhs name : String} :
    name ∈ leading productions lhs ↔ ∃ production ∈ productions,
      production.lhs = lhs ∧ production.rhs.head? = some (.nonterminal name) := by
  simp [leading, List.mem_filterMap, Option.bind_eq_some_iff, Symbol.nonterminal?_eq_some_iff,
    and_assoc]

theorem mem_allLeading_iff {queue : List String} {name : String} :
    name ∈ allLeading productions queue ↔ ∃ lhs ∈ queue,
      Relation.ReflTransGen (fun lhs name => name ∈ leading productions lhs) lhs name := by
  let led := productions.filterMap fun production => production.rhs.head?.bind Symbol.nonterminal?
  have hled : ∀ lhs name, name ∈ leading productions lhs → name ∈ led := by
    intro lhs name hname
    obtain ⟨production, hmem, _, hhead⟩ := mem_leading_iff.mp hname
    exact List.mem_filterMap.mpr ⟨production, hmem, by simp [hhead, Symbol.nonterminal?]⟩
  have hcard : (queue ++ led).toFinset.card ≤ queue.length + productions.length := by
    refine (List.toFinset_card_le _).trans ?_
    rw [List.length_append]
    exact Nat.add_le_add_left (List.length_filterMap_le _ _) _
  exact mem_explore_iff (queue ++ led).toFinset (fun lhs hlhs => by simp [hlhs])
    (fun lhs _ name hname => by simp [hled lhs name hname]) hcard

def nextNames (kernel : List Item) : List String :=
  kernel.filterMap fun item => item.next?.bind Symbol.nonterminal?

theorem mem_nextNames_iff {kernel : List Item} {name : String} :
    name ∈ nextNames kernel ↔ ∃ item ∈ kernel, item.next? = some (.nonterminal name) := by
  simp [nextNames, List.mem_filterMap, Option.bind_eq_some_iff,
    Symbol.nonterminal?_eq_some_iff]

theorem mem_closure_iff_mem_allLeading {kernel : List Item} {item : Item} :
    item ∈ closure productions kernel ↔ item ∈ kernel ∨ ∃ production ∈ productions,
      production.lhs ∈ allLeading productions (nextNames kernel) ∧ .initial production = item := by
  simp only [closure, Std.ExtTreeSet.mem_ofList, List.contains_iff_mem, List.mem_append,
    List.mem_map, List.mem_filter, decide_eq_true_eq, and_assoc]
  rfl

-- A nonterminal that can lead stands after the cursor of some item.
theorem exists_inClosure_of_mem_allLeading {kernel : List Item} {name : String}
    (h : name ∈ allLeading productions (nextNames kernel)) :
    ∃ item, InClosure productions kernel item ∧ item.next? = some (.nonterminal name) := by
  obtain ⟨lhs, hlhs, hreach⟩ := mem_allLeading_iff.mp h
  induction hreach with
  | refl =>
      obtain ⟨item, hitem, hnext⟩ := mem_nextNames_iff.mp hlhs
      exact ⟨item, .kernel hitem, hnext⟩
  | tail hreach hlead ih =>
      obtain ⟨item, hitem, hnext⟩ := ih (mem_allLeading_iff.mpr ⟨lhs, hlhs, hreach⟩)
      obtain ⟨production, hmem, rfl, hhead⟩ := mem_leading_iff.mp hlead
      exact ⟨.initial production, .initial hitem hnext hmem, by rw [Item.next?_initial, hhead]⟩

theorem mem_closure_iff {kernel : List Item} {item : Item} :
    item ∈ closure productions kernel ↔ InClosure productions kernel item := by
  constructor
  · intro h
    rcases mem_closure_iff_mem_allLeading.mp h with hitem | ⟨production, hmem, hlead, rfl⟩
    · exact .kernel hitem
    · obtain ⟨item, hitem, hnext⟩ := exists_inClosure_of_mem_allLeading hlead
      exact .initial hitem hnext hmem
  · intro h
    induction h with
    | kernel hitem => exact mem_closure_iff_mem_allLeading.mpr (.inl hitem)
    | @initial item production _ hnext hmem ih =>
        refine mem_closure_iff_mem_allLeading.mpr (.inr ⟨production, hmem, ?_, rfl⟩)
        rcases mem_closure_iff_mem_allLeading.mp ih with hitem | ⟨before, hbefore, hlead, rfl⟩
        · exact mem_allLeading_iff.mpr ⟨_, mem_nextNames_iff.mpr ⟨item, hitem, hnext⟩, .refl⟩
        · obtain ⟨lhs, hlhs, hreach⟩ := mem_allLeading_iff.mp hlead
          refine mem_allLeading_iff.mpr ⟨lhs, hlhs, hreach.tail ?_⟩
          exact mem_leading_iff.mpr ⟨before, hbefore, rfl, by simpa using hnext⟩

theorem InClosure.cursor_eq_zero {kernel : List Item} {item : Item}
    (h : InClosure productions kernel item) (hnot : item ∉ kernel) : item.cursor = 0 := by
  cases h with
  | kernel hitem => exact absurd hitem hnot
  | initial => rfl

theorem InClosure.production_mem {kernel : List Item} {item : Item}
    (h : InClosure productions kernel item)
    (hkernel : ∀ item ∈ kernel, item.production ∈ productions) : item.production ∈ productions := by
  cases h with
  | kernel hitem => exact hkernel item hitem
  | initial _ _ hmem => exact hmem

theorem InClosure.mono {kernel more : List Item} {item : Item} (hsubset : kernel ⊆ more)
    (h : InClosure productions kernel item) : InClosure productions more item := by
  induction h with
  | kernel hitem => exact .kernel (hsubset hitem)
  | initial _ hnext hmem ih => exact .initial ih hnext hmem

-- What one item of a kernel does not bring into the closure, another one does.
theorem inClosure_iff_exists {kernel : List Item} {item : Item} :
    InClosure productions kernel item ↔ ∃ first ∈ kernel, InClosure productions [first] item := by
  constructor
  · intro h
    induction h with
    | kernel hitem => exact ⟨_, hitem, .kernel (by simp)⟩
    | initial _ hnext hmem ih =>
        obtain ⟨first, hfirst, hclosure⟩ := ih
        exact ⟨first, hfirst, .initial hclosure hnext hmem⟩
  · rintro ⟨first, hfirst, hclosure⟩
    exact hclosure.mono (by simpa using hfirst)

theorem mem_nextSymbols_iff {items : ItemSet} {symbol : Symbol} :
    symbol ∈ nextSymbols items ↔ ∃ item ∈ items, item.next? = some symbol := by
  simp [nextSymbols, List.mem_eraseDups, List.mem_filterMap, Std.ExtTreeSet.mem_toList]

-- The items of a set that can read a symbol, once they have read it.
def advances (items : ItemSet) (symbol : Symbol) : List Item :=
  (items.toList.filter (·.next? = some symbol)).map Item.advanced

theorem mem_advances_iff {items : ItemSet} {symbol : Symbol} {item : Item} :
    item ∈ advances items symbol ↔
      ∃ before ∈ items, before.next? = some symbol ∧ before.advanced = item := by
  simp [advances, Std.ExtTreeSet.mem_toList, and_assoc]

theorem mem_target_iff {items : ItemSet} {symbol : Symbol} {item : Item} :
    item ∈ target productions items symbol ↔ InClosure productions (advances items symbol) item :=
  mem_closure_iff

-- The items of a target are those of the closures of the items that have read the symbol, one at a time.
theorem mem_target_iff_exists {items : ItemSet} {symbol : Symbol} {item : Item} :
    item ∈ target productions items symbol ↔
      ∃ before ∈ items, before.next? = some symbol ∧ item ∈ closure productions [before.advanced] := by
  simp only [mem_target_iff, mem_closure_iff]
  rw [inClosure_iff_exists]
  constructor
  · rintro ⟨first, hfirst, hclosure⟩
    obtain ⟨before, hbefore, hnext, rfl⟩ := mem_advances_iff.mp hfirst
    exact ⟨before, hbefore, hnext, hclosure⟩
  · rintro ⟨before, hbefore, hnext, hclosure⟩
    exact ⟨_, mem_advances_iff.mpr ⟨before, hbefore, hnext, rfl⟩, hclosure⟩

theorem advanced_mem_target {items : ItemSet} {symbol : Symbol} {item : Item} (hitem : item ∈ items)
    (hnext : item.next? = some symbol) : item.advanced ∈ target productions items symbol :=
  mem_target_iff.mpr (.kernel (mem_advances_iff.mpr ⟨item, hitem, hnext, rfl⟩))

-- An item that has read something came into its set by reading it.
theorem exists_of_mem_target {items : ItemSet} {symbol : Symbol} {item : Item}
    (hitem : item ∈ target productions items symbol) (hcursor : item.cursor ≠ 0) :
    ∃ before ∈ items, before.next? = some symbol ∧ before.advanced = item := by
  refine mem_advances_iff.mp ?_
  by_contra hnot
  exact hcursor ((mem_target_iff.mp hitem).cursor_eq_zero hnot)

end Automaton

end Handheld
