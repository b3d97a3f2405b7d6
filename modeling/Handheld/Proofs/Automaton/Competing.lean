import Handheld.Proofs.Automaton.InPlace

namespace Handheld

-- A call that registers an action in a table.
inductive Registration where
  | shift (state : Nat) (terminal : String) (next : Nat)
  | reduce (state rule : Nat)
  | accept (state : Nat) (terminal : String)

namespace Registration

variable {call other : Registration}

@[simp] def action : Registration → Action
  | shift _ _ next => .shift next
  | reduce _ rule => .reduce rule
  | accept _ _ => .accept

-- A reduce is registered for all cells of its row, the others for one cell.
def Fills : Registration → (state : Nat) → (terminal : String) → Prop
  | shift state terminal _, state', terminal' | accept state terminal, state', terminal' =>
    state = state' ∧ terminal = terminal'
  | reduce state _, state', _ => state = state'

-- Two calls want different actions in one cell.
def Competes (call other : Registration) : Prop :=
  call.action ≠ other.action ∧
    ∃ state terminal, call.Fills state terminal ∧ other.Fills state terminal

theorem Competes.symm (h : call.Competes other) : other.Competes call := by
  obtain ⟨hne, state, terminal, hcall, hother⟩ := h
  exact ⟨hne.symm, state, terminal, hother, hcall⟩

-- Nothing else stands in the cells of the call.
def Fits (call : Registration) (table : ActionTable) : Prop :=
  ∀ ⦃state terminal action⦄, call.Fills state terminal →
    table.action? state terminal = some action → action = call.action

end Registration

theorem Cell.action_injective : Function.Injective Cell.action := by
  intro cell cell' h
  cases cell <;> cases cell' <;> simp_all [Cell.action]

namespace Row

def action? : Row → (terminal : String) → Option Action
  | .reduce rule, _ => some (.reduce rule)
  | .cells entries, terminal => entries[terminal]?.map Cell.action

def IsFilled (row : Row) : Prop := ∃ terminal action, row.action? terminal = some action

theorem eq_of_action? {row row' : Row} (h : row.IsFilled) (h' : row'.IsFilled)
    (heq : ∀ terminal, row.action? terminal = row'.action? terminal) : row = row' := by
  have hdiffer {rule : Nat} {cells : Std.ExtTreeMap String Cell} (hfilled : (Row.cells cells).IsFilled)
      (heq : ∀ terminal, (Row.cells cells).action? terminal = some (.reduce rule)) : False := by
    obtain ⟨terminal, action, haction⟩ := hfilled
    obtain ⟨cell, _, hcell⟩ := Option.map_eq_some_iff.mp (heq terminal)
    cases cell <;> simp [Cell.action] at hcell
  cases row with
  | reduce rule => cases row' with
    | reduce rule' => simpa [action?] using heq ""
    | cells cells' => exact (hdiffer h' fun terminal => (heq terminal).symm).elim
  | cells cells => cases row' with
    | reduce rule' => exact (hdiffer h heq).elim
    | cells cells' =>
        refine congrArg Row.cells (Std.ExtTreeMap.ext_getElem? fun terminal => ?_)
        exact Option.map_injective Cell.action_injective (heq terminal)

end Row

namespace ActionTable

open Registration

variable {table next : ActionTable} {state : Nat} {terminal : String} {call : Registration}
  {calls calls' : List Registration}

def register (table : ActionTable) : Registration → Except Conflict ActionTable
  | .shift state terminal next => table.addShift state terminal next
  | .reduce state rule => table.addReduce state rule
  | .accept state terminal => table.addAccept state terminal

theorem action?_setCell {cell : Cell} (hreduce : table.reduce? state = none) (state' : Nat)
    (terminal' : String) : (table.setCell state terminal cell).action? state' terminal' =
      if state = state' ∧ terminal = terminal' then some cell.action
      else table.action? state' terminal' := by
  simp only [action?_eq, cell?_setCell, reduce?_setCell]
  by_cases hstate : state = state'
  · subst hstate
    by_cases hterminal : terminal = terminal' <;> simp [hterminal, hreduce]
  · simp [hstate]

theorem action?_setReduce {rule : Nat} (state' : Nat) (terminal' : String) :
    (table.setReduce state rule).action? state' terminal' =
      if state = state' then some (.reduce rule) else table.action? state' terminal' := by
  simp only [action?_eq, cell?_setReduce, reduce?_setReduce]
  by_cases hstate : state = state' <;> simp [hstate]

theorem action?_of_reduce? {rule : Nat} (h : table.reduce? state = some rule) (terminal : String) :
    table.action? state terminal = some (.reduce rule) :=
  action?_eq_reduce_iff.mpr h

theorem action?_of_register (h : table.register call = .ok next) (hfills : call.Fills state terminal) :
    next.action? state terminal = some call.action := by
  cases call with
  | shift state' terminal' next' =>
      obtain ⟨rfl, rfl⟩ := hfills
      rcases addShift_eq_ok h with ⟨hknown, rfl⟩ | ⟨_, hreduce, rfl⟩
      · exact action?_eq_shift_iff.mpr hknown
      · simp [action?_setCell hreduce, Cell.action]
  | reduce state' rule =>
      obtain rfl : state' = state := hfills
      rcases addReduce_eq_ok h with ⟨hknown, rfl⟩ | ⟨_, _, rfl⟩
      · exact action?_of_reduce? hknown terminal
      · simp [action?_setReduce]
  | accept state' terminal' =>
      obtain ⟨rfl, rfl⟩ := hfills
      obtain ⟨_, hreduce, rfl⟩ := addAccept_eq_ok h
      simp [action?_setCell hreduce, Cell.action]

theorem action?_of_not_fills (h : table.register call = .ok next) (hfills : ¬ call.Fills state terminal) :
    next.action? state terminal = table.action? state terminal := by
  cases call with
  | shift state' terminal' next' =>
      rcases addShift_eq_ok h with ⟨_, rfl⟩ | ⟨_, hreduce, rfl⟩
      · rfl
      · rw [action?_setCell hreduce]
        exact if_neg hfills
  | reduce state' rule =>
      rcases addReduce_eq_ok h with ⟨_, rfl⟩ | ⟨_, _, rfl⟩
      · rfl
      · rw [action?_setReduce]
        exact if_neg hfills
  | accept state' terminal' =>
      obtain ⟨_, hreduce, rfl⟩ := addAccept_eq_ok h
      rw [action?_setCell hreduce]
      exact if_neg hfills

theorem exists_of_register_eq_error {conflict : Conflict} (h : table.register call = .error conflict) :
    ∃ state terminal action, call.Fills state terminal ∧
      table.action? state terminal = some action ∧ action ≠ call.action := by
  cases call with
  | shift state terminal next =>
      rcases addShift_eq_error h with ⟨cell, hcell, hne⟩ | ⟨rule, hrule⟩
      · refine ⟨state, terminal, cell.action, ⟨rfl, rfl⟩, (action?_eq_action_iff cell).mpr hcell, ?_⟩
        cases cell <;> simp_all [Cell.action]
      · exact ⟨state, terminal, .reduce rule, ⟨rfl, rfl⟩, action?_of_reduce? hrule _, by simp⟩
  | reduce state rule =>
      rcases addReduce_eq_error h with
        ⟨other, hother, hne, _⟩ | ⟨terminal, hterminal, _⟩ | ⟨_, terminal, hterminal, _⟩
      · refine ⟨state, "", .reduce other, rfl, action?_of_reduce? hother _, ?_⟩
        simpa using hne
      · obtain ⟨next, hnext⟩ := (isLeast_of_firstShift? hterminal).1
        exact ⟨state, terminal, .shift next, rfl, action?_eq_shift_iff.mpr hnext, by simp⟩
      · have haccept := cell?_of_firstAccept? hterminal
        exact ⟨state, terminal, .accept, rfl, action?_eq_accept_iff.mpr haccept, by simp⟩
  | accept state terminal =>
      rcases addAccept_eq_error h with ⟨cell, hcell, hne⟩ | ⟨rule, hrule⟩
      · refine ⟨state, terminal, cell.action, ⟨rfl, rfl⟩, (action?_eq_action_iff cell).mpr hcell, ?_⟩
        cases cell <;> simp_all [Cell.action]
      · exact ⟨state, terminal, .reduce rule, ⟨rfl, rfl⟩, action?_of_reduce? hrule _, by simp⟩

theorem fits_of_register (h : table.register call = .ok next) : call.Fits table := by
  intro state terminal action hfills haction
  cases call with
  | shift state' terminal' next' =>
      obtain ⟨rfl, rfl⟩ := hfills
      rcases addShift_eq_ok h with ⟨hknown, _⟩ | ⟨hnone, hreduce, _⟩
      · exact Option.some.inj (haction.symm.trans (action?_eq_shift_iff.mpr hknown))
      · simp [action?_eq, hnone, hreduce] at haction
  | reduce state' rule =>
      obtain rfl : state' = state := hfills
      rcases addReduce_eq_ok h with ⟨hknown, _⟩ | ⟨hreduce, hnone, _⟩
      · exact Option.some.inj (haction.symm.trans (action?_of_reduce? hknown terminal))
      · simp [action?_eq, hnone, hreduce] at haction
  | accept state' terminal' =>
      obtain ⟨rfl, rfl⟩ := hfills
      obtain ⟨hnone | hknown, hreduce, _⟩ := addAccept_eq_ok h
      · simp [action?_eq, hnone, hreduce] at haction
      · exact Option.some.inj (haction.symm.trans (action?_eq_accept_iff.mpr hknown))

-- A call succeeds if it finds nothing else in its cells.
theorem exists_register_iff : (∃ next, table.register call = .ok next) ↔ call.Fits table := by
  constructor
  · rintro ⟨next, h⟩
    exact fits_of_register h
  · intro hfits
    cases hregister : table.register call with
    | ok next => exact ⟨next, rfl⟩
    | error conflict =>
        obtain ⟨state, terminal, action, hfills, haction, hne⟩ := exists_of_register_eq_error hregister
        exact absurd (hfits hfills haction) hne

-- A call that succeeds adds its action to what the table answers.
theorem action?_eq_some_iff_of_register (h : table.register call = .ok next) (action : Action) :
    next.action? state terminal = some action ↔
      (call.Fills state terminal ∧ call.action = action) ∨
        table.action? state terminal = some action := by
  by_cases hfills : call.Fills state terminal
  · rw [action?_of_register h hfills, Option.some.injEq]
    refine ⟨fun haction => .inl ⟨hfills, haction⟩, ?_⟩
    rintro (⟨_, haction⟩ | hknown)
    · exact haction
    · exact (fits_of_register h hfills hknown).symm
  · simp [action?_of_not_fills h hfills, hfills]

theorem fits_iff_of_register {other : Registration} (h : table.register call = .ok next) :
    other.Fits next ↔ other.Fits table ∧ ¬ call.Competes other := by
  simp only [Fits, Competes, action?_eq_some_iff_of_register h]
  constructor
  · intro hfits
    refine ⟨fun state terminal action hfills haction => hfits hfills (.inr haction), ?_⟩
    rintro ⟨hne, state, terminal, hcall, hother⟩
    exact hne (hfits hother (.inl ⟨hcall, rfl⟩))
  · rintro ⟨hfits, hfree⟩ state terminal action hother (⟨hcall, rfl⟩ | haction)
    · by_contra hne
      exact hfree ⟨hne, state, terminal, hcall, hother⟩
    · exact hfits hother haction

theorem exists_foldlM_register_iff : (∃ last, calls.foldlM register table = .ok last) ↔
    calls.Pairwise (¬ Competes · ·) ∧ ∀ call ∈ calls, call.Fits table := by
  induction calls generalizing table with
  | nil => simp [pure, Except.pure]
  | cons call calls ih =>
      simp only [List.foldlM_cons, bind_eq_ok_iff, List.pairwise_cons, List.forall_mem_cons]
      constructor
      · rintro ⟨last, next, hnext, hlast⟩
        obtain ⟨hpairwise, hfits⟩ := ih.mp ⟨last, hlast⟩
        simp only [fits_iff_of_register hnext] at hfits
        exact ⟨⟨fun other hother => (hfits other hother).2, hpairwise⟩, fits_of_register hnext,
          fun other hother => (hfits other hother).1⟩
      · rintro ⟨⟨hfree, hpairwise⟩, hcall, hfits⟩
        obtain ⟨next, hnext⟩ := exists_register_iff.mpr hcall
        obtain ⟨last, hlast⟩ := ih.mpr ⟨hpairwise, fun other hother =>
          (fits_iff_of_register hnext).mpr ⟨hfits other hother, hfree other hother⟩⟩
        exact ⟨last, next, hnext, hlast⟩

theorem action?_eq_some_iff_of_foldlM (h : calls.foldlM register table = .ok next) (action : Action) :
    next.action? state terminal = some action ↔
      (∃ call ∈ calls, call.Fills state terminal ∧ call.action = action) ∨
        table.action? state terminal = some action := by
  induction calls generalizing table with
  | nil =>
      obtain rfl : table = next := by simpa [pure, Except.pure] using h
      simp
  | cons call calls ih =>
      rw [List.foldlM_cons] at h
      obtain ⟨middle, hmiddle, h⟩ := bind_eq_ok_iff.mp h
      rw [ih h, action?_eq_some_iff_of_register hmiddle, List.exists_mem_cons_iff, ← or_assoc,
        or_comm (a := ∃ call ∈ calls, _)]

theorem action?_empty (state : Nat) (terminal : String) : empty.action? state terminal = none := by
  simp [action?, empty]

-- What a table answers is what has been registered for the cell or its row.
def Answers (table : ActionTable) (calls : List Registration) : Prop :=
  ∀ state terminal,
    (∀ action, table.action? state terminal = some action ↔
      ∃ call ∈ calls, call.Fills state terminal ∧ call.action = action) ∧
    (table.action? state terminal = none ↔ ∀ call ∈ calls, ¬ call.Fills state terminal)

theorem answers_of_foldlM (h : calls.foldlM register .empty = .ok table) : table.Answers calls := by
  intro state terminal
  have hsome (action : Action) : table.action? state terminal = some action ↔
      ∃ call ∈ calls, call.Fills state terminal ∧ call.action = action := by
    rw [action?_eq_some_iff_of_foldlM h, action?_empty, or_iff_left (by simp)]
  refine ⟨hsome, ?_⟩
  rw [Option.eq_none_iff_forall_ne_some]
  simp only [ne_eq, hsome]
  constructor
  · intro hnone call hcall hfills
    exact hnone call.action ⟨call, hcall, hfills, rfl⟩
  · rintro hnone action ⟨call, hcall, hfills, _⟩
    exact hnone call hcall hfills

theorem action?_eq_bind (table : ActionTable) (state : Nat) (terminal : String) :
    table.action? state terminal = table.rows[state]?.bind (·.action? terminal) := by
  unfold action?
  cases table.rows[state]? with
  | none => rfl
  | some row =>
      cases row with
      | reduce rule => rfl
      | cells cells => cases hcell : cells[terminal]? with
        | none => simp [hcell, Row.action?]
        | some cell => cases cell <;> simp [hcell, Row.action?, Cell.action]

-- No row is there without something in it.
def Tidy (table : ActionTable) : Prop :=
  ∀ (state : Nat) (row : Row), table.rows[state]? = some row → row.IsFilled

theorem tidy_empty : empty.Tidy := by
  simp [Tidy, empty]

theorem Tidy.insert (h : table.Tidy) {row : Row} (hrow : row.IsFilled) :
    Tidy ⟨table.rows.insert state row⟩ := by
  intro state' row' hrow'
  rw [Std.ExtTreeMap.getElem?_insert] at hrow'
  split at hrow'
  · exact Option.some.inj hrow' ▸ hrow
  · exact h state' row' hrow'

theorem Tidy.setCell (h : table.Tidy) (cell : Cell) : (table.setCell state terminal cell).Tidy :=
  h.insert ⟨terminal, cell.action, by simp [Row.action?]⟩

theorem Tidy.setReduce (h : table.Tidy) (rule : Nat) : (table.setReduce state rule).Tidy :=
  h.insert ⟨"", .reduce rule, rfl⟩

theorem Tidy.register (h : table.Tidy) (hnext : table.register call = .ok next) : next.Tidy := by
  cases call with
  | shift state terminal next' =>
      rcases addShift_eq_ok hnext with ⟨_, rfl⟩ | ⟨_, _, rfl⟩
      · exact h
      · exact h.setCell _
  | reduce state rule =>
      rcases addReduce_eq_ok hnext with ⟨_, rfl⟩ | ⟨_, _, rfl⟩
      · exact h
      · exact h.setReduce rule
  | accept state terminal =>
      obtain ⟨_, _, rfl⟩ := addAccept_eq_ok hnext
      exact h.setCell _

theorem Tidy.foldlM (h : table.Tidy) (hnext : calls.foldlM ActionTable.register table = .ok next) :
    next.Tidy := by
  induction calls generalizing table with
  | nil =>
      obtain rfl : table = next := by simpa [pure, Except.pure] using hnext
      exact h
  | cons call calls ih =>
      rw [List.foldlM_cons] at hnext
      obtain ⟨middle, hmiddle, hnext⟩ := bind_eq_ok_iff.mp hnext
      exact ih (h.register hmiddle) hnext

-- What tidy tables answer settles what they are.
theorem Tidy.eq_of_action? {other : ActionTable} (h : table.Tidy) (hother : other.Tidy)
    (heq : ∀ state terminal, table.action? state terminal = other.action? state terminal) :
    table = other := by
  have hrows : table.rows = other.rows := by
    refine Std.ExtTreeMap.ext_getElem? fun state => ?_
    have hrow := h state
    have hrow' := hother state
    have heq := heq state
    simp only [action?_eq_bind] at heq
    generalize table.rows[state]? = row at hrow heq ⊢
    generalize other.rows[state]? = row' at hrow' heq ⊢
    match row, row' with
    | none, none => rfl
    | none, some row' =>
        obtain ⟨terminal, action, haction⟩ := hrow' row' rfl
        simpa [haction] using heq terminal
    | some row, none =>
        obtain ⟨terminal, action, haction⟩ := hrow row rfl
        simpa [haction] using heq terminal
    | some row, some row' => rw [Row.eq_of_action? (hrow row rfl) (hrow' row' rfl) heq]
  cases table
  cases other
  exact congrArg mk hrows

-- The table after a call, be it refused or not.
def attempt (table : ActionTable) (call : Registration) : ActionTable :=
  match table.register call with
  | .ok next => next
  | .error _ => table

def afterCalls (table : ActionTable) (calls : List Registration) : ActionTable :=
  calls.foldl attempt table

-- The calls of some that are not refused.
def granted (table : ActionTable) : List Registration → List Registration
  | [] => []
  | call :: calls =>
    match table.register call with
    | .ok next => call :: next.granted calls
    | .error _ => table.granted calls

-- Calls that are refused are as good as not made.
theorem foldlM_granted (table : ActionTable) (calls : List Registration) :
    (table.granted calls).foldlM register table = .ok (table.afterCalls calls) := by
  induction calls generalizing table with
  | nil => rfl
  | cons call calls ih =>
      rw [granted, afterCalls, List.foldl_cons, attempt]
      split
      · rename_i next hregister
        rw [List.foldlM_cons]
        exact bind_eq_ok_iff.mpr ⟨next, hregister, ih next⟩
      · exact ih table

theorem exists_register_eq_error_iff (h : table.Answers calls) :
    (∃ conflict, table.register call = .error conflict) ↔ ∃ other ∈ calls, other.Competes call := by
  constructor
  · rintro ⟨conflict, hconflict⟩
    obtain ⟨state, terminal, action, hfills, haction, hne⟩ := exists_of_register_eq_error hconflict
    obtain ⟨other, hmem, hother, rfl⟩ := ((h state terminal).1 action).mp haction
    exact ⟨other, hmem, hne, state, terminal, hother, hfills⟩
  · rintro ⟨other, hmem, hne, state, terminal, hother, hfills⟩
    have haction := ((h state terminal).1 other.action).mpr ⟨other, hmem, hother, rfl⟩
    cases hregister : table.register call with
    | error conflict => exact ⟨conflict, rfl⟩
    | ok next => exact absurd (fits_of_register hregister hfills haction) hne

theorem granted_of_foldlM (h : calls.foldlM register table = .ok next) : table.granted calls = calls := by
  induction calls generalizing table with
  | nil => rfl
  | cons call calls ih =>
      rw [List.foldlM_cons] at h
      obtain ⟨middle, hmiddle, h⟩ := bind_eq_ok_iff.mp h
      rw [granted, hmiddle]
      exact congrArg _ (ih h)

theorem foldlM_register_perm (hperm : calls.Perm calls') (h : calls.foldlM register .empty = .ok table) :
    calls'.foldlM register .empty = .ok table := by
  obtain ⟨hpairwise, _⟩ := exists_foldlM_register_iff.mp ⟨table, h⟩
  have hsymm {call other : Registration} (hfree : ¬ call.Competes other) : ¬ other.Competes call :=
    fun hcompetes => hfree hcompetes.symm
  obtain ⟨table', h'⟩ : ∃ table', calls'.foldlM register .empty = .ok table' := by
    refine exists_foldlM_register_iff.mpr ⟨(hperm.pairwise_iff hsymm).mp hpairwise, ?_⟩
    intro call _ state terminal action _ haction
    simp [action?_empty] at haction
  have heq : table = table' := by
    refine (tidy_empty.foldlM h).eq_of_action? (tidy_empty.foldlM h') fun state terminal => ?_
    refine Option.ext fun action => ?_
    rw [(answers_of_foldlM h state terminal).1, (answers_of_foldlM h' state terminal).1]
    simp only [hperm.mem_iff]
  exact heq ▸ h'

end ActionTable

namespace Entries

variable {table : ActionTable} {entries last : Entries} {call : Registration} {calls : List Registration}

def register : Registration → Change
  | .shift state terminal next => addShift state terminal next
  | .reduce state rule => addReduce state rule
  | .accept state terminal => addAccept state terminal

-- The entries after some calls, be they refused or not.
def afterCalls (entries : Entries) (calls : List Registration) : Entries :=
  calls.foldl (fun entries call => (entries.apply (register call)).2) entries

theorem outcome_register (h : table.KeptBy entries) (call : Registration) :
    entries.Outcome (table.register call) (entries.apply (register call)) := by
  cases call with
  | shift => exact h.outcome_addShift
  | reduce => exact h.outcome_addReduce
  | accept => exact h.outcome_addAccept

theorem keptBy_attempt (h : table.KeptBy entries) (call : Registration) :
    (table.attempt call).KeptBy (entries.apply (register call)).2 := by
  have houtcome := outcome_register h call
  unfold ActionTable.attempt
  generalize table.register call = result at houtcome ⊢
  generalize entries.apply (register call) = result' at houtcome ⊢
  cases houtcome with
  | done hkept => exact hkept
  | refused conflict => exact h

theorem keptBy_afterCalls (h : table.KeptBy entries) :
    (table.afterCalls calls).KeptBy (entries.afterCalls calls) := by
  induction calls generalizing table entries with
  | nil => exact h
  | cons call calls ih => exact ih (keptBy_attempt h call)

theorem eq_of_register_eq_error {conflict : Conflict} (h : table.KeptBy entries)
    (hcall : entries.apply (register call) = (.error conflict, last)) :
    last = entries ∧ table.register call = .error conflict := by
  have houtcome := outcome_register h call
  rw [hcall] at houtcome
  generalize hresult : table.register call = result at houtcome
  cases houtcome with
  | refused conflict => exact ⟨rfl, rfl⟩

theorem forM_register_iff (h : table.KeptBy entries) :
    entries.apply (calls.forM register) = (.ok (), last) ↔
      ∃ table', calls.foldlM ActionTable.register table = .ok table' ∧ table'.KeptBy last := by
  induction calls generalizing table entries with
  | nil =>
      have hrun : entries.apply (([] : List Registration).forM register) = (.ok (), entries) := rfl
      simp only [hrun, List.foldlM_nil, pure, Except.pure, Prod.mk.injEq, true_and, Except.ok.injEq,
        exists_eq_left']
      exact ⟨fun heq => heq ▸ h, h.unique⟩
  | cons call calls ih =>
      have houtcome := outcome_register h call
      rw [List.forM_eq_forM, List.forM_cons, apply_bind, List.foldlM_cons]
      generalize table.register call = result at houtcome ⊢
      generalize entries.apply (register call) = result' at houtcome ⊢
      cases houtcome with
      | done hkept => exact ih hkept
      | refused conflict => simp [bind, Except.bind]

end Entries

-- Calls in any order and with repetitions, on a table and in place: no two actions are ever in one cell, a
-- call that is refused changes nothing, and the answers are what was registered by the others. A call is
-- refused exactly if it competes with one of these. If all calls of a list succeed, then they do so in every
-- order and make the same table and the same entries.
theorem ActionTable.afterCalls_orderless (calls : List Registration) :
    let entries := Entries.empty.afterCalls calls
    let table := empty.afterCalls calls
    let registered := empty.granted calls
    table.KeptBy entries ∧
    entries.ConflictFree ∧
    (∀ call conflict after, entries.apply (Entries.register call) = (.error conflict, after) →
      after = entries ∧ table.register call = .error conflict) ∧
    (∀ state terminal, entries.action? state terminal = table.action? state terminal) ∧
    table.Answers registered ∧
    registered.Pairwise (¬ Registration.Competes · ·) ∧
    (∀ call, (∃ conflict, table.register call = .error conflict) ↔
      ∃ other ∈ registered, other.Competes call) ∧
    (∀ last, calls.foldlM register .empty = .ok last → last = table ∧ last.Answers calls) ∧
    ∀ calls', calls.Perm calls' →
      (∀ last, calls.foldlM register .empty = .ok last ↔ calls'.foldlM register .empty = .ok last) ∧
      ∀ last, Entries.empty.apply (calls.forM Entries.register) = (.ok (), last) ↔
        Entries.empty.apply (calls'.forM Entries.register) = (.ok (), last) := by
  have hkept : (empty.afterCalls calls).KeptBy (Entries.empty.afterCalls calls) :=
    Entries.keptBy_afterCalls .empty
  have hgranted := foldlM_granted empty calls
  have hanswers := answers_of_foldlM hgranted
  refine ⟨hkept, hkept.conflictFree, fun call conflict after => Entries.eq_of_register_eq_error hkept,
    hkept.action?_eq, hanswers, (exists_foldlM_register_iff.mp ⟨_, hgranted⟩).1,
    fun call => exists_register_eq_error_iff hanswers, fun last hlast => ?_, fun calls' hperm => ?_⟩
  · rw [granted_of_foldlM hlast, hlast] at hgranted
    exact ⟨Except.ok.inj hgranted, answers_of_foldlM hlast⟩
  · have hsame (last : ActionTable) :
        calls.foldlM register .empty = .ok last ↔ calls'.foldlM register .empty = .ok last :=
      ⟨foldlM_register_perm hperm, foldlM_register_perm hperm.symm⟩
    refine ⟨hsame, fun last => ?_⟩
    rw [Entries.forM_register_iff .empty, Entries.forM_register_iff .empty]
    simp only [hsame]

-- A shift is registered twice, around an accept and a reduce in other rows.
def repeatedCalls : List Registration :=
  [.shift 0 "a" 1, .accept 1 "$", .reduce 2 0, .shift 0 "a" 1]

theorem ActionTable.afterCalls_orderless_repeated : ∃ last,
    repeatedCalls.foldlM register .empty = .ok last ∧
      repeatedCalls.reverse.foldlM register .empty = .ok last ∧ last.Answers repeatedCalls := by
  obtain ⟨_, _, _, _, _, _, _, hall, horder⟩ := afterCalls_orderless repeatedCalls
  have hlast : repeatedCalls.foldlM register .empty = .ok (empty.afterCalls repeatedCalls) := rfl
  exact ⟨_, hlast, ((horder _ repeatedCalls.reverse_perm.symm).1 _).mp hlast, (hall _ hlast).2⟩

end Handheld
