import Handheld.Automaton.Tables
import Handheld.Proofs.Data.Except
import Mathlib.Data.String.Basic
import Mathlib.Order.Bounds.Basic

namespace Handheld

def Cell.action : Cell → Action
  | .shift next => .shift next
  | .accept => .accept

namespace ActionTable

variable {table table' : ActionTable} {state : Nat} {terminal : String}

-- A row is filled by one reduce or holds cells, never both.
theorem reduce?_eq_none_of_cell? {cell : Cell} (h : table.cell? state terminal = some cell) :
    table.reduce? state = none := by
  unfold cell? cells? at h
  unfold reduce?
  split at h <;> simp_all

theorem cell?_eq_none_of_reduce? {rule : Nat} (h : table.reduce? state = some rule) :
    table.cell? state terminal = none := by
  by_contra hcell
  obtain ⟨cell, hcell⟩ := Option.ne_none_iff_exists'.mp hcell
  simp [reduce?_eq_none_of_cell? hcell] at h

theorem cell?_setCell (cell : Cell) (state' : Nat) (terminal' : String) :
    (table.setCell state terminal cell).cell? state' terminal' =
      if state = state' ∧ terminal = terminal' then some cell else table.cell? state' terminal' := by
  unfold cell? setCell
  by_cases hstate : state = state'
  · subst hstate
    simp only [cells?, Std.ExtTreeMap.getElem?_insert_self, Option.bind_some,
      Std.ExtTreeMap.getElem?_insert, Std.compare_eq_iff_eq, true_and]
    split
    · rfl
    · cases table.rows[state]? with
      | none => simp
      | some row => cases row <;> simp
  · simp [cells?, Std.ExtTreeMap.getElem?_insert, hstate]

theorem reduce?_setCell (cell : Cell) (state' : Nat) :
    (table.setCell state terminal cell).reduce? state' =
      if state = state' then none else table.reduce? state' := by
  unfold reduce? setCell
  by_cases hstate : state = state' <;> simp [Std.ExtTreeMap.getElem?_insert, hstate]

theorem cell?_setReduce (rule state' : Nat) :
    (table.setReduce state rule).cell? state' terminal =
      if state = state' then none else table.cell? state' terminal := by
  unfold cell? cells? setReduce
  by_cases hstate : state = state' <;> simp [Std.ExtTreeMap.getElem?_insert, hstate]

theorem reduce?_setReduce (rule state' : Nat) :
    (table.setReduce state rule).reduce? state' =
      if state = state' then some rule else table.reduce? state' := by
  unfold reduce? setReduce
  by_cases hstate : state = state' <;> simp [Std.ExtTreeMap.getElem?_insert, hstate]

theorem mem_cells_iff {cell : Cell} :
    (terminal, cell) ∈ ((table.cells? state).getD ∅).toList ↔ table.cell? state terminal = some cell := by
  unfold cell?
  cases table.cells? state <;> simp [Std.ExtTreeMap.mem_toList_iff_getElem?_eq_some]

theorem cell?_ne_shift_of_firstShift? (h : table.firstShift? state = none) (terminal : String)
    (next : Nat) : table.cell? state terminal ≠ some (.shift next) := by
  intro hcell
  rw [firstShift?, List.findSome?_eq_none_iff] at h
  simpa using h _ (mem_cells_iff.mpr hcell)

theorem cell?_ne_accept_of_firstAccept? (h : table.firstAccept? state = none) (terminal : String) :
    table.cell? state terminal ≠ some .accept := by
  intro hcell
  rw [firstAccept?, List.findSome?_eq_none_iff] at h
  simpa using h _ (mem_cells_iff.mpr hcell)

theorem cell?_eq_none_of_first (hshift : table.firstShift? state = none)
    (haccept : table.firstAccept? state = none) (terminal : String) :
    table.cell? state terminal = none := by
  by_contra hcell
  obtain ⟨cell, hcell⟩ := Option.ne_none_iff_exists'.mp hcell
  cases cell with
  | shift next => exact cell?_ne_shift_of_firstShift? hshift terminal next hcell
  | accept => exact cell?_ne_accept_of_firstAccept? haccept terminal hcell

-- Rows are sorted, so what is found first in a row is on the least terminal.
theorem isLeast_of_findSome? {find : String × Cell → Option String}
    (hfind : ∀ entry name, find entry = some name → name = entry.1)
    (h : ((table.cells? state).getD ∅).toList.findSome? find = some terminal) :
    IsLeast {name | ∃ cell, table.cell? state name = some cell ∧ find (name, cell) ≠ none} terminal := by
  obtain ⟨before, ⟨name, cell⟩, after, hlist, hname, hbefore⟩ := List.findSome?_eq_some_iff.mp h
  have hsorted := ((table.cells? state).getD ∅).ordered_keys_toList
  rw [hlist, List.pairwise_append] at hsorted
  obtain rfl : terminal = name := hfind _ _ hname
  refine ⟨⟨cell, mem_cells_iff.mp (by simp [hlist]), by simp [hname]⟩, ?_⟩
  rintro other ⟨cell', hother, hfound⟩
  rw [← mem_cells_iff, hlist, List.mem_append, List.mem_cons] at hother
  rcases hother with hmem | heq | hmem
  · exact absurd (hbefore _ hmem) hfound
  · exact (Prod.mk.inj heq).1.ge
  · exact (compare_lt_iff_lt.mp ((List.pairwise_cons.mp hsorted.2.1).1 _ hmem)).le

theorem isLeast_of_firstShift? (h : table.firstShift? state = some terminal) :
    IsLeast {name | ∃ next, table.cell? state name = some (.shift next)} terminal := by
  obtain ⟨⟨cell, hcell, hfound⟩, hleast⟩ :=
    isLeast_of_findSome? (by rintro ⟨_, _ | _⟩ <;> simp [eq_comm]) h
  refine ⟨?_, fun name ⟨next, hnext⟩ => hleast ⟨_, hnext, by simp⟩⟩
  cases cell with
  | shift next => exact ⟨next, hcell⟩
  | accept => exact absurd rfl hfound

theorem isLeast_of_firstAccept? (h : table.firstAccept? state = some terminal) :
    IsLeast {name | table.cell? state name = some .accept} terminal := by
  obtain ⟨⟨cell, hcell, hfound⟩, hleast⟩ :=
    isLeast_of_findSome? (by rintro ⟨_, _ | _⟩ <;> simp [eq_comm]) h
  refine ⟨?_, fun name haccept => hleast ⟨_, haccept, by simp⟩⟩
  cases cell with
  | shift next => exact absurd rfl hfound
  | accept => exact hcell

theorem cell?_of_firstAccept? (h : table.firstAccept? state = some terminal) :
    table.cell? state terminal = some .accept :=
  (isLeast_of_firstAccept? h).1

theorem addShift_eq_ok {next : Nat} (h : table.addShift state terminal next = .ok table') :
    (table.cell? state terminal = some (.shift next) ∧ table' = table) ∨
      table.cell? state terminal = none ∧ table.reduce? state = none ∧
        table' = table.setCell state terminal (.shift next) := by
  unfold addShift at h
  split at h
  · rename_i hcell
    split at h
    · rename_i heq
      exact .inl ⟨heq ▸ hcell, (Except.ok.inj h).symm⟩
    · simp at h
  · simp at h
  · simp at h
  · rename_i hcell hreduce
    exact .inr ⟨hcell, hreduce, (Except.ok.inj h).symm⟩

theorem addReduce_eq_ok {rule : Nat} (h : table.addReduce state rule = .ok table') :
    (table.reduce? state = some rule ∧ table' = table) ∨
      table.reduce? state = none ∧ (∀ terminal, table.cell? state terminal = none) ∧
        table' = table.setReduce state rule := by
  unfold addReduce at h
  split at h
  · rename_i hreduce
    split at h
    · rename_i heq
      exact .inl ⟨heq ▸ hreduce, (Except.ok.inj h).symm⟩
    · simp at h
  · rename_i hreduce
    split at h
    · simp at h
    · simp at h
    · rename_i hshift haccept
      exact .inr ⟨hreduce, cell?_eq_none_of_first hshift haccept, (Except.ok.inj h).symm⟩

theorem addAccept_eq_ok (h : table.addAccept state terminal = .ok table') :
    (table.cell? state terminal = none ∨ table.cell? state terminal = some .accept) ∧
      table.reduce? state = none ∧ table' = table.setCell state terminal .accept := by
  unfold addAccept at h
  split at h
  · simp at h
  · simp at h
  · rename_i hreduce hshift
    refine ⟨?_, hreduce, (Except.ok.inj h).symm⟩
    cases hcell : table.cell? state terminal with
    | none => exact .inl rfl
    | some cell =>
        cases cell with
        | shift next => exact absurd hcell (hshift next)
        | accept => exact .inr rfl

-- What stands in the way of a cell: another cell for its terminal or a reduce in its row.
theorem addShift_eq_error {next : Nat} {conflict : Conflict}
    (h : table.addShift state terminal next = .error conflict) :
    (∃ cell, table.cell? state terminal = some cell ∧ cell ≠ .shift next) ∨
      ∃ rule, table.reduce? state = some rule := by
  unfold addShift at h
  split at h
  · rename_i other hcell
    split at h
    · simp at h
    · rename_i hne
      exact .inl ⟨_, hcell, by simpa using hne⟩
  · rename_i rule hreduce _
    exact .inr ⟨rule, hreduce⟩
  · rename_i hcell hreduce
    exact .inl ⟨_, hcell, by simp⟩
  · simp at h

theorem addAccept_eq_error {conflict : Conflict} (h : table.addAccept state terminal = .error conflict) :
    (∃ cell, table.cell? state terminal = some cell ∧ cell ≠ .accept) ∨
      ∃ rule, table.reduce? state = some rule := by
  unfold addAccept at h
  split at h
  · rename_i next hcell
    exact .inl ⟨_, hcell, by simp⟩
  · rename_i rule hreduce _
    exact .inr ⟨rule, hreduce⟩
  · simp at h

-- What stands in the way of a reduce: another reduce in its row or any cell.
theorem addReduce_eq_error {rule : Nat} {conflict : Conflict}
    (h : table.addReduce state rule = .error conflict) :
    (∃ other, table.reduce? state = some other ∧ other ≠ rule ∧ conflict = .reduceReduce state) ∨
      (∃ terminal, table.firstShift? state = some terminal ∧ conflict = .shiftReduce state terminal) ∨
        table.firstShift? state = none ∧
          ∃ terminal, table.firstAccept? state = some terminal ∧
            conflict = .reduceAccept state terminal := by
  unfold addReduce at h
  split at h
  · rename_i other hreduce
    split at h
    · simp at h
    · rename_i hne
      exact .inl ⟨other, hreduce, hne, (Except.error.inj h).symm⟩
  · split at h
    · rename_i _ name hshift
      exact .inr (.inl ⟨name, hshift, (Except.error.inj h).symm⟩)
    · rename_i name hshift haccept
      exact .inr (.inr ⟨hshift, name, haccept, (Except.error.inj h).symm⟩)
    · simp at h

theorem action?_eq_reduce_iff {rule : Nat} :
    table.action? state terminal = some (.reduce rule) ↔ table.reduce? state = some rule := by
  unfold action? reduce?
  cases table.rows[state]? with
  | none => simp
  | some row =>
      cases row with
      | reduce rule => simp
      | cells cells => cases hcell : cells[terminal]? with
        | none => simp [hcell]
        | some cell => cases cell <;> simp [hcell]

theorem action?_eq (table : ActionTable) (state : Nat) (terminal : String) :
    table.action? state terminal =
      ((table.cell? state terminal).map Cell.action).or ((table.reduce? state).map .reduce) := by
  unfold action? cell? cells? reduce?
  cases table.rows[state]? with
  | none => rfl
  | some row =>
      cases row with
      | reduce rule => rfl
      | cells cells => cases hcell : cells[terminal]? with
        | none => simp [hcell]
        | some cell => cases cell <;> simp [hcell, Cell.action]

theorem action?_eq_action_iff (cell : Cell) :
    table.action? state terminal = some cell.action ↔ table.cell? state terminal = some cell := by
  unfold action? cell? cells?
  cases table.rows[state]? with
  | none => simp
  | some row =>
      cases row with
      | reduce rule => cases cell <;> simp [Cell.action]
      | cells cells => cases hcell : cells[terminal]? with
        | none => simp [hcell]
        | some found => cases found <;> cases cell <;> simp [hcell, Cell.action]

theorem action?_eq_shift_iff {next : Nat} :
    table.action? state terminal = some (.shift next) ↔
      table.cell? state terminal = some (.shift next) :=
  action?_eq_action_iff (.shift next)

theorem action?_eq_accept_iff :
    table.action? state terminal = some .accept ↔ table.cell? state terminal = some .accept :=
  action?_eq_action_iff .accept

end ActionTable

theorem GotoTable.goto?_add (table : GotoTable) (state next : Nat) (nonterminal : String) (state' : Nat)
    (nonterminal' : String) :
    (table.add state nonterminal next).goto? state' nonterminal' =
      if state = state' ∧ nonterminal = nonterminal' then some next
      else table.goto? state' nonterminal' := by
  unfold goto? add
  by_cases hstate : state = state'
  · subst hstate
    simp only [Std.ExtTreeMap.getElem?_insert_self, Option.bind_some, Std.ExtTreeMap.getElem?_insert,
      Std.compare_eq_iff_eq, true_and]
    split
    · rfl
    · cases table.rows[state]? <;> simp
  · simp [Std.ExtTreeMap.getElem?_insert, hstate]

namespace TableEntry

-- The tables say what the entry says.
def Holds (tables : ActionTable × GotoTable) : TableEntry → Prop
  | .shift state terminal next => tables.1.cell? state terminal = some (.shift next)
  | .reduce state rule => tables.1.reduce? state = some rule
  | .accept state terminal => tables.1.cell? state terminal = some .accept
  | .goto state nonterminal next => tables.2.goto? state nonterminal = some next

-- Gotos replace one another without a conflict, so they have to agree beforehand.
def GotosAgree (entries : TableEntry → Prop) : Prop :=
  ∀ ⦃state nonterminal next next'⦄, entries (.goto state nonterminal next) →
    entries (.goto state nonterminal next') → next = next'

theorem GotosAgree.mono {entries others : TableEntry → Prop} (h : GotosAgree others)
    (hsub : ∀ entry, entries entry → others entry) : GotosAgree entries :=
  fun _ _ _ _ hone htwo => h (hsub _ hone) (hsub _ htwo)

variable {tables tables' : ActionTable × GotoTable} {entry : TableEntry}

def ofCell (state : Nat) (terminal : String) : Cell → TableEntry
  | .shift next => .shift state terminal next
  | .accept => .accept state terminal

theorem holds_setCell_iff {state : Nat} {terminal : String} {cell : Cell}
    (hcell : ∀ other, tables.1.cell? state terminal = some other → other = cell)
    (hreduce : tables.1.reduce? state = none) :
    entry.Holds (tables.1.setCell state terminal cell, tables.2) ↔
      entry.Holds tables ∨ entry = ofCell state terminal cell := by
  cases entry with
  | goto => cases cell <;> simp [Holds, ofCell]
  | reduce state' rule =>
      simp only [Holds, ActionTable.reduce?_setCell]
      split <;> cases cell <;> simp_all [ofCell]
  | shift state' terminal' next =>
      simp only [Holds, ActionTable.cell?_setCell]
      split <;> cases cell <;> grind [ofCell]
  | accept state' terminal' =>
      simp only [Holds, ActionTable.cell?_setCell]
      split <;> cases cell <;> grind [ofCell]

theorem holds_setReduce_iff {state rule : Nat}
    (hcell : ∀ terminal, tables.1.cell? state terminal = none)
    (hreduce : tables.1.reduce? state = none) :
    entry.Holds (tables.1.setReduce state rule, tables.2) ↔
      entry.Holds tables ∨ entry = .reduce state rule := by
  cases entry with
  | goto => simp [Holds]
  | reduce state' rule' =>
      simp only [Holds, ActionTable.reduce?_setReduce]
      split <;> grind
  | shift state' terminal' next =>
      simp only [Holds, ActionTable.cell?_setReduce]
      split <;> simp_all
  | accept state' terminal' =>
      simp only [Holds, ActionTable.cell?_setReduce]
      split <;> simp_all

theorem holds_add_iff {state next : Nat} {nonterminal : String}
    (hgoto : ∀ other, tables.2.goto? state nonterminal = some other → other = next) :
    entry.Holds (tables.1, tables.2.add state nonterminal next) ↔
      entry.Holds tables ∨ entry = .goto state nonterminal next := by
  cases entry with
  | goto state' nonterminal' next' =>
      simp only [Holds, GotoTable.goto?_add]
      split <;> grind
  | _ => simp [Holds]

-- Registering an entry adds it and keeps the others.
theorem holds_register_iff (h : Tables.register tables entry = .ok tables')
    (hgotos : GotosAgree fun other => other.Holds tables ∨ other = entry) (other : TableEntry) :
    other.Holds tables' ↔ other.Holds tables ∨ other = entry := by
  have hknown (hentry : entry.Holds tables) : other.Holds tables ↔ other.Holds tables ∨ other = entry :=
    ⟨.inl, fun h => h.elim id fun heq => heq ▸ hentry⟩
  cases entry with
  | shift state terminal next =>
      obtain ⟨actions, hactions, rfl⟩ := map_eq_ok_iff.mp h
      rcases ActionTable.addShift_eq_ok hactions with ⟨hcell, rfl⟩ | ⟨hcell, hreduce, rfl⟩
      · exact hknown hcell
      · exact holds_setCell_iff (by simp [hcell]) hreduce
  | reduce state rule =>
      obtain ⟨actions, hactions, rfl⟩ := map_eq_ok_iff.mp h
      rcases ActionTable.addReduce_eq_ok hactions with ⟨hrule, rfl⟩ | ⟨hrule, hcell, rfl⟩
      · exact hknown hrule
      · exact holds_setReduce_iff hcell hrule
  | accept state terminal =>
      obtain ⟨actions, hactions, rfl⟩ := map_eq_ok_iff.mp h
      obtain ⟨hcell, hreduce, rfl⟩ := ActionTable.addAccept_eq_ok hactions
      refine holds_setCell_iff (fun found hfound => ?_) hreduce
      rcases hcell with hnone | haccept
      · simp [hnone] at hfound
      · simpa [haccept] using hfound.symm
  | goto state nonterminal next =>
      obtain rfl := Except.ok.inj h
      exact holds_add_iff fun found hfound => hgotos (.inl hfound) (.inr rfl)

theorem holds_foldlM_iff {entries : List TableEntry}
    (h : entries.foldlM Tables.register tables = .ok tables')
    (hgotos : GotosAgree fun other => other.Holds tables ∨ other ∈ entries) (other : TableEntry) :
    other.Holds tables' ↔ other.Holds tables ∨ other ∈ entries := by
  induction entries generalizing tables with
  | nil =>
      obtain rfl : tables = tables' := by simpa [pure, Except.pure] using h
      simp
  | cons entry entries ih =>
      rw [List.foldlM_cons] at h
      obtain ⟨middle, hmiddle, h⟩ := bind_eq_ok_iff.mp h
      have hfirst : ∀ other : TableEntry, other.Holds middle ↔ other.Holds tables ∨ other = entry :=
        holds_register_iff hmiddle
          (hgotos.mono fun other hother => hother.imp_right fun heq => by simp [heq])
      have hall (other : TableEntry) :
          other.Holds middle ∨ other ∈ entries ↔ other.Holds tables ∨ other ∈ entry :: entries := by
        rw [hfirst, List.mem_cons, or_assoc]
      rw [ih h (hgotos.mono fun other => (hall other).mp), hall]

theorem not_holds_empty (entry : TableEntry) : ¬ entry.Holds (.empty, .empty) := by
  cases entry <;>
    simp [Holds, ActionTable.empty, ActionTable.cell?, ActionTable.cells?, ActionTable.reduce?,
      GotoTable.empty, GotoTable.goto?]

end TableEntry

end Handheld
