import Handheld.Proofs.Automaton.Tables

namespace Handheld

namespace ItemSet

-- A terminal, not the end marker, that some item is about to read.
def Shifts (items : ItemSet) (terminal : String) : Prop :=
  terminal ≠ endMarker ∧ ∃ item ∈ items, item.next? = some (.terminal terminal)

def Accepts (items : ItemSet) : Prop := ∃ item ∈ items, item.next? = some (.terminal endMarker)

-- A finished item stands beside an item before a terminal or beside another finished item.
def IsConflicted (items : ItemSet) : Prop :=
  ∃ item ∈ items, item.isFinished ∧ ∃ other ∈ items,
    (∃ terminal, other.next? = some (.terminal terminal)) ∨ other.isFinished ∧ other ≠ item

-- The conflict of a state: a shift comes before an accept, and of several shifts that on the least
-- terminal.
inductive HasConflict (items : ItemSet) (state : Nat) : Conflict → Prop
  | shiftReduce {terminal : String} : IsLeast {name | items.Shifts name} terminal →
      HasConflict items state (.shiftReduce state terminal)
  | reduceAccept : (∀ terminal, ¬ items.Shifts terminal) → items.Accepts →
      HasConflict items state (.reduceAccept state endMarker)
  | reduceReduce : (∀ terminal, ¬ items.Shifts terminal) → ¬ items.Accepts →
      HasConflict items state (.reduceReduce state)

end ItemSet

namespace Automaton

open TableEntry

variable {productions : List Production} {states : List ItemSet} {state rule : Nat} {terminal : String}
  {before after : List TableEntry} {tables : ActionTable × GotoTable} {items : ItemSet}
  {conflict : Conflict}

-- The tables that all entries are registered in.
def registerAll (productions : List Production) (states : List ItemSet) :
    Except Conflict (ActionTable × GotoTable) :=
  (transitionEntries productions states ++ reduceEntries productions states).foldlM Tables.register
    (.empty, .empty)

theorem eq_reduce_of_mem {entry : TableEntry} (h : entry ∈ reduceEntries productions states) :
    ∃ state rule, entry = .reduce state rule := by
  obtain ⟨state, _, _, rule, _, _, _, _, rfl⟩ := mem_reduceEntries_iff.mp h
  exact ⟨state, rule, rfl⟩

theorem ofCell_mem_append_iff {cell : Cell} (hsub : before ⊆ reduceEntries productions states) :
    ofCell state terminal cell ∈ transitionEntries productions states ++ before ↔
      ofCell state terminal cell ∈ transitionEntries productions states := by
  rw [List.mem_append, or_iff_left]
  intro h
  obtain ⟨_, _, heq⟩ := eq_reduce_of_mem (hsub h)
  cases cell <;> simp [ofCell] at heq

theorem reduce_notMem_transitionEntries :
    .reduce state rule ∉ transitionEntries productions states := by
  intro h
  obtain ⟨_, _, _, _, _, heq⟩ := mem_transitionEntries_iff.mp h
  exact transition_ne_reduce heq

theorem exists_shift_mem_iff (hitems : states[state]? = some items) :
    (∃ next, .shift state terminal next ∈ transitionEntries productions states) ↔
      items.Shifts terminal := by
  have hmem (next : Nat) : ofCell state terminal (.shift next) ∈ transitionEntries productions states ↔ _ :=
    (ofCell_mem_append_iff fun _ h => h).symm.trans shift_mem_entries_iff
  simp only [ofCell, mem_nextSymbols_iff] at hmem
  simp only [hmem, ItemSet.Shifts]
  constructor
  · rintro ⟨_, hne, items', hitems', hnext, _⟩
    exact ⟨hne, Option.some.inj (hitems.symm.trans hitems') ▸ hnext⟩
  · rintro ⟨hne, hnext⟩
    exact ⟨_, hne, items, hitems, hnext, rfl⟩

theorem accept_mem_iff (hitems : states[state]? = some items) :
    .accept state terminal ∈ transitionEntries productions states ↔
      terminal = endMarker ∧ items.Accepts := by
  have hmem : ofCell state terminal .accept ∈ transitionEntries productions states ↔ _ :=
    (ofCell_mem_append_iff fun _ h => h).symm.trans accept_mem_entries_iff
  simp only [ofCell, mem_nextSymbols_iff] at hmem
  simp only [hmem, ItemSet.Accepts]
  constructor
  · rintro ⟨hmarker, items', hitems', hnext⟩
    exact ⟨hmarker, Option.some.inj (hitems.symm.trans hitems') ▸ hnext⟩
  · rintro ⟨hmarker, hnext⟩
    exact ⟨hmarker, items, hitems, hnext⟩

theorem exists_ofCell_mem {item : Item} (hitems : states[state]? = some items) (hitem : item ∈ items)
    (hnext : item.next? = some (.terminal terminal)) :
    ∃ cell, ofCell state terminal cell ∈ transitionEntries productions states := by
  by_cases hmarker : terminal = endMarker
  · exact ⟨.accept, (accept_mem_iff hitems).mpr ⟨hmarker, item, hitem, hmarker ▸ hnext⟩⟩
  · obtain ⟨next, hmem⟩ : ∃ next, .shift state terminal next ∈ transitionEntries productions states :=
      (exists_shift_mem_iff hitems).mpr ⟨hmarker, item, hitem, hnext⟩
    exact ⟨.shift next, hmem⟩

theorem holds_ofCell_iff {cell : Cell} :
    (ofCell state terminal cell).Holds tables ↔ tables.1.cell? state terminal = some cell := by
  cases cell <;> rfl

-- A cell has one entry.
theorem cell_unique {cell cell' : Cell}
    (h : ofCell state terminal cell ∈ transitionEntries productions states)
    (h' : ofCell state terminal cell' ∈ transitionEntries productions states) : cell = cell' := by
  rw [← ofCell_mem_append_iff fun _ h => h] at h h'
  cases cell with
  | shift next =>
      obtain ⟨hne, items, hitems, _, rfl⟩ := shift_mem_entries_iff.mp h
      cases cell' with
      | shift next' =>
          obtain ⟨_, items', hitems', _, rfl⟩ := shift_mem_entries_iff.mp h'
          obtain rfl := Option.some.inj (hitems.symm.trans hitems')
          rfl
      | accept => exact absurd (accept_mem_entries_iff.mp h').1 hne
  | accept =>
      cases cell' with
      | shift next' =>
          exact absurd (accept_mem_entries_iff.mp h).1 (shift_mem_entries_iff.mp h').1
      | accept => rfl

theorem register_ofCell_eq_error {cell : Cell}
    (h : Tables.register tables (ofCell state terminal cell) = .error conflict) :
    (∃ other, (ofCell state terminal other).Holds tables ∧ other ≠ cell) ∨
      ∃ rule, (TableEntry.reduce state rule).Holds tables := by
  simp only [holds_ofCell_iff]
  cases cell with
  | shift next => exact ActionTable.addShift_eq_error (map_eq_error_iff.mp h)
  | accept => exact ActionTable.addAccept_eq_error (map_eq_error_iff.mp h)

theorem transition_cases (state next : Nat) (symbol : Symbol) :
    (∃ name, transition state next symbol = .goto state name next) ∨
      ∃ terminal cell, transition state next symbol = ofCell state terminal cell := by
  cases symbol with
  | nonterminal name => exact .inl ⟨name, rfl⟩
  | terminal name =>
      by_cases hmarker : name = endMarker
      · exact .inr ⟨name, .accept, by simp [hmarker, ofCell]⟩
      · exact .inr ⟨name, .shift next, by simp [transition_terminal hmarker, ofCell]⟩

-- The transitions come first and agree with one another, so none of them is in conflict.
theorem exists_foldlM_transitionEntries (productions : List Production) (states : List ItemSet) :
    ∃ tables, (transitionEntries productions states).foldlM Tables.register (.empty, .empty) =
      .ok tables := by
  cases hfold : (transitionEntries productions states).foldlM Tables.register (.empty, .empty) with
  | ok tables => exact ⟨tables, rfl⟩
  | error conflict =>
      obtain ⟨before, entry, after, tables, hentries, hbefore, herror⟩ := exists_of_foldlM_eq_error hfold
      have hsub : before ⊆ transitionEntries productions states := by simp [hentries]
      have hholds := holds_iff_mem (fun entry hentry => List.mem_append_left _ (hsub hentry)) hbefore
      have hmem : entry ∈ transitionEntries productions states := by simp [hentries]
      obtain ⟨state, items, symbol, _, _, rfl⟩ := mem_transitionEntries_iff.mp hmem
      rcases transition_cases state (states.idxOf (target productions items symbol)) symbol with
        ⟨name, hgoto⟩ | ⟨terminal, cell, hcell⟩
      · simp [hgoto, Tables.register] at herror
      · rw [hcell] at herror hmem
        rcases register_ofCell_eq_error herror with ⟨other, hother, hne⟩ | ⟨rule, hrule⟩
        · exact absurd (cell_unique (hsub ((hholds _).mp hother)) hmem) hne
        · exact absurd (hsub ((hholds _).mp hrule)) reduce_notMem_transitionEntries

-- A conflict shows when some reduce is registered, after all transitions and the reduces before it.
theorem exists_of_registerAll (h : registerAll productions states = .error conflict) :
    ∃ before state rule after tables,
      reduceEntries productions states = before ++ .reduce state rule :: after ∧
      (∀ entry : TableEntry, entry.Holds tables ↔ entry ∈ transitionEntries productions states ++ before) ∧
      tables.1.addReduce state rule = .error conflict := by
  obtain ⟨first, hfirst⟩ := exists_foldlM_transitionEntries productions states
  rw [registerAll, List.foldlM_append] at h
  obtain ⟨middle, hmiddle, h⟩ := (bind_eq_error_iff.mp h).resolve_left (by simp [hfirst])
  obtain ⟨before, entry, after, tables, hentries, hbefore, herror⟩ := exists_of_foldlM_eq_error h
  have hmem : entry ∈ reduceEntries productions states := by simp [hentries]
  obtain ⟨state, rule, rfl⟩ := eq_reduce_of_mem hmem
  have hsub : transitionEntries productions states ++ before ⊆
      transitionEntries productions states ++ reduceEntries productions states := by simp [hentries]
  have hfold : (transitionEntries productions states ++ before).foldlM Tables.register (.empty, .empty) =
      .ok tables := by
    rw [List.foldlM_append]
    exact bind_eq_ok_iff.mpr ⟨middle, hmiddle, hbefore⟩
  exact ⟨before, state, rule, after, tables, hentries, holds_iff_mem hsub hfold,
    map_eq_error_iff.mp herror⟩

def stateOf : TableEntry → Nat
  | .shift state _ _ | .reduce state _ | .accept state _ | .goto state _ _ => state

-- The reduces are registered state by state.
theorem pairwise_reduceEntries (productions : List Production) (states : List ItemSet) :
    (reduceEntries productions states).Pairwise (stateOf · ≤ stateOf ·) := by
  have hstate {entry : TableEntry} {items : ItemSet} {state : Nat}
      (h : entry ∈ (items.toList.filter Item.isFinished).filterMap fun item =>
        (ruleNumber? productions item.production).map (.reduce state)) : stateOf entry = state := by
    obtain ⟨item, _, hentry⟩ := List.mem_filterMap.mp h
    obtain ⟨rule, _, rfl⟩ := Option.map_eq_some_iff.mp hentry
    rfl
  have hplaces : states.zipIdx.Pairwise fun entry other => entry.2 < other.2 := by
    rw [← List.pairwise_map, List.zipIdx_map_snd]
    exact List.pairwise_lt_range'
  refine List.pairwise_flatMap.mpr ⟨fun entry _ => ?_, hplaces.imp fun hlt first hfirst second hsecond => ?_⟩
  · refine List.pairwise_of_forall_mem_list fun first hfirst second hsecond => ?_
    rw [hstate hfirst, hstate hsecond]
  · rw [hstate hfirst, hstate hsecond]
    exact hlt.le

theorem reduce_mem_of_lt {state' rule' : Nat}
    (hentries : reduceEntries productions states = before ++ .reduce state rule :: after)
    (h : .reduce state' rule' ∈ reduceEntries productions states) (hlt : state' < state) :
    .reduce state' rule' ∈ before := by
  have hsorted := pairwise_reduceEntries productions states
  rw [hentries] at h hsorted
  rcases List.mem_append.mp h with hbefore | hafter
  · exact hbefore
  · rcases List.mem_cons.mp hafter with heq | hafter
    · obtain ⟨rfl, _⟩ := by simpa using heq
      exact absurd hlt (Nat.lt_irrefl _)
    · have hle := (List.pairwise_cons.mp (List.pairwise_append.mp hsorted).2.1).1 _ hafter
      exact absurd hle (Nat.not_le_of_lt hlt)

-- A state whose entries have all been registered is not in conflict.
theorem not_isConflicted_of_holds (hitems : states[state]? = some items)
    (hmem : ∀ item ∈ items, item.production ∈ productions)
    (htransitions : ∀ entry ∈ transitionEntries productions states, entry.Holds tables)
    (hreduces : ∀ rule, .reduce state rule ∈ reduceEntries productions states →
      (TableEntry.reduce state rule).Holds tables) : ¬ items.IsConflicted := by
  have hreduce {item : Item} (hitem : item ∈ items) (hfinished : item.isFinished) :
      ∃ rule, ruleNumber? productions item.production = some rule ∧
        tables.1.reduce? state = some rule := by
    obtain ⟨rule, hrule⟩ := exists_ruleNumber? (hmem item hitem)
    exact ⟨rule, hrule, hreduces rule
      (mem_reduceEntries_iff.mpr ⟨state, items, item, rule, hitems, hitem, hfinished, hrule, rfl⟩)⟩
  rintro ⟨item, hitem, hfinished, other, hother, ⟨terminal, hnext⟩ | ⟨hother_finished, hne⟩⟩
  · obtain ⟨rule, _, hrule⟩ := hreduce hitem hfinished
    obtain ⟨cell, hcell⟩ : ∃ cell, ofCell state terminal cell ∈ transitionEntries productions states :=
      exists_ofCell_mem hitems hother hnext
    have hcell := holds_ofCell_iff.mp (htransitions _ hcell)
    simp [ActionTable.reduce?_eq_none_of_cell? hcell] at hrule
  · obtain ⟨rule, hnumber, hrule⟩ := hreduce hitem hfinished
    obtain ⟨rule', hnumber', hrule'⟩ := hreduce hother hother_finished
    obtain rfl := Option.some.inj (hrule.symm.trans hrule')
    have hproduction := Option.some.inj
      ((production_of_ruleNumber? hnumber').symm.trans (production_of_ruleNumber? hnumber))
    exact hne (Item.eq_of_isFinished hproduction hother_finished hfinished)

-- A reduce that stands in conflict tells what else its state can do.
theorem hasConflict_of_addReduce {item : Item} (hitems : states[state]? = some items)
    (hitem : item ∈ items) (hfinished : item.isFinished)
    (hcells : ∀ terminal cell, tables.1.cell? state terminal = some cell ↔
      ofCell state terminal cell ∈ transitionEntries productions states)
    (hreduces : ∀ other, tables.1.reduce? state = some other → other ≠ rule →
      ∃ other ∈ items, other.isFinished ∧ other ≠ item)
    (h : tables.1.addReduce state rule = .error conflict) :
    items.IsConflicted ∧ items.HasConflict state conflict := by
  have hshifts (terminal : String) :
      (∃ next, tables.1.cell? state terminal = some (.shift next)) ↔ items.Shifts terminal := by
    simp only [hcells]
    exact exists_shift_mem_iff hitems
  have haccepts (terminal : String) :
      tables.1.cell? state terminal = some .accept ↔ terminal = endMarker ∧ items.Accepts :=
    (hcells terminal .accept).trans (accept_mem_iff hitems)
  have hnoshift (hnone : ∀ terminal next, tables.1.cell? state terminal ≠ some (.shift next)) :
      ∀ terminal, ¬ items.Shifts terminal := by
    intro terminal hshift
    obtain ⟨next, hnext⟩ := (hshifts terminal).mpr hshift
    exact hnone terminal next hnext
  rcases ActionTable.addReduce_eq_error h with
    ⟨other, hother, hne, rfl⟩ | ⟨terminal, hterminal, rfl⟩ | ⟨hnone, terminal, hterminal, rfl⟩
  · obtain ⟨other, hmem, hother_finished, hdiffer⟩ := hreduces other hother hne
    have hempty (terminal : String) : tables.1.cell? state terminal = none :=
      ActionTable.cell?_eq_none_of_reduce? hother
    refine ⟨⟨item, hitem, hfinished, other, hmem, .inr ⟨hother_finished, hdiffer⟩⟩, .reduceReduce ?_ ?_⟩
    · exact hnoshift fun terminal next => by simp [hempty terminal]
    · intro haccept
      simpa [hempty] using (haccepts endMarker).mpr ⟨rfl, haccept⟩
  · have hleast := ActionTable.isLeast_of_firstShift? hterminal
    simp only [hshifts] at hleast
    obtain ⟨other, hmem, hnext⟩ := hleast.1.2
    exact ⟨⟨item, hitem, hfinished, other, hmem, .inl ⟨terminal, hnext⟩⟩, .shiftReduce hleast⟩
  · obtain ⟨rfl, haccept⟩ := (haccepts terminal).mp (ActionTable.cell?_of_firstAccept? hterminal)
    obtain ⟨other, hmem, hnext⟩ := haccept
    refine ⟨⟨item, hitem, hfinished, other, hmem, .inl ⟨_, hnext⟩⟩, .reduceAccept ?_ ⟨other, hmem, hnext⟩⟩
    exact hnoshift (ActionTable.cell?_ne_shift_of_firstShift? hnone)

-- The conflict is that of the first conflicted state.
def IsFirstConflict (states : List ItemSet) (conflict : Conflict) : Prop :=
  ∃ (state : Nat) (items : ItemSet), states[state]? = some items ∧ items.IsConflicted ∧
    items.HasConflict state conflict ∧
      ∀ (earlier : Nat) (others : ItemSet), earlier < state → states[earlier]? = some others →
        ¬ others.IsConflicted

theorem isFirstConflict_of_registerAll
    (hmem : ∀ items ∈ states, ∀ item ∈ items, item.production ∈ productions)
    (h : registerAll productions states = .error conflict) : IsFirstConflict states conflict := by
  obtain ⟨before, state, rule, after, tables, hentries, hholds, herror⟩ := exists_of_registerAll h
  have hsub : before ⊆ reduceEntries productions states := by simp [hentries]
  have hreduce : .reduce state rule ∈ reduceEntries productions states := by simp [hentries]
  obtain ⟨items, item, hitems, hitem, hfinished, hnumber⟩ :=
    reduce_mem_entries_iff.mp (List.mem_append_right _ hreduce)
  have hcells (terminal : String) (cell : Cell) := holds_ofCell_iff.symm.trans
    ((hholds (ofCell state terminal cell)).trans (ofCell_mem_append_iff hsub))
  have hreduces (other : Nat) (hother : tables.1.reduce? state = some other) (hne : other ≠ rule) :
      ∃ other ∈ items, other.isFinished ∧ other ≠ item := by
    have hregistered := (List.mem_append.mp ((hholds (.reduce state other)).mp hother)).resolve_left
      reduce_notMem_transitionEntries
    obtain ⟨items', other', hitems', hother', hother_finished, hnumber'⟩ :=
      reduce_mem_entries_iff.mp (List.mem_append_right _ (hsub hregistered))
    obtain rfl := Option.some.inj (hitems.symm.trans hitems')
    refine ⟨other', hother', hother_finished, ?_⟩
    rintro rfl
    exact hne (Option.some.inj (hnumber'.symm.trans hnumber))
  obtain ⟨hconflicted, hconflict⟩ :=
    hasConflict_of_addReduce hitems hitem hfinished hcells hreduces herror
  refine ⟨state, items, hitems, hconflicted, hconflict, fun earlier others hlt hothers => ?_⟩
  have htransitions : ∀ entry ∈ transitionEntries productions states, entry.Holds tables :=
    fun entry hentry => (hholds entry).mpr (List.mem_append_left _ hentry)
  refine not_isConflicted_of_holds hothers (hmem others (List.mem_of_getElem? hothers)) htransitions ?_
  intro rule hrule
  exact (hholds _).mpr (List.mem_append_right _ (reduce_mem_of_lt hentries hrule hlt))

theorem exists_registerAll_eq_error_iff
    (hmem : ∀ items ∈ states, ∀ item ∈ items, item.production ∈ productions) :
    (∃ conflict, registerAll productions states = .error conflict) ↔
      ∃ items ∈ states, items.IsConflicted := by
  constructor
  · rintro ⟨conflict, hconflict⟩
    obtain ⟨state, items, hitems, hconflicted, _⟩ := isFirstConflict_of_registerAll hmem hconflict
    exact ⟨items, List.mem_of_getElem? hitems, hconflicted⟩
  · rintro ⟨items, hitems, hconflicted⟩
    cases hfold : registerAll productions states with
    | error conflict => exact ⟨conflict, rfl⟩
    | ok tables =>
        obtain ⟨state, hstate⟩ := List.mem_iff_getElem?.mp hitems
        have hholds := holds_iff_mem (fun _ hentry => hentry) hfold
        have htransitions : ∀ entry ∈ transitionEntries productions states, entry.Holds tables :=
          fun entry hentry => (hholds entry).mpr (List.mem_append_left _ hentry)
        refine absurd hconflicted (not_isConflicted_of_holds hstate (hmem items hitems) htransitions ?_)
        exact fun rule hrule => (hholds _).mpr (List.mem_append_right _ hrule)

end Automaton

end Handheld
