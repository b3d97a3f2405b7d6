import Handheld.Proofs.Automaton.Actions

namespace Handheld

-- What some terminals of some states have.
abbrev RowMap (β : Type) := Std.ExtTreeMap Nat (Std.ExtTreeMap String β)

namespace RowMap

variable {β : Type} {rows rows' : RowMap β} {state : Nat} {terminal : String}

def at? (rows : RowMap β) (state : Nat) (terminal : String) : Option β :=
  rows[state]?.bind (·[terminal]?)

def first? (rows : RowMap β) (state : Nat) : Option String := rows[state]?.bind (·.minKey?)

def put (rows : RowMap β) (state : Nat) (terminal : String) (value : β) : RowMap β :=
  rows.insert state ((rows[state]?.getD ∅).insert terminal value)

-- No row is there without something in it.
def Tidy (rows : RowMap β) : Prop := ∀ (state : Nat) row, rows[state]? = some row → row ≠ ∅

theorem at?_put (value : β) (state' : Nat) (terminal' : String) :
    (rows.put state terminal value).at? state' terminal' =
      if state = state' ∧ terminal = terminal' then some value else rows.at? state' terminal' := by
  unfold at? put
  by_cases hstate : state = state'
  · subst hstate
    by_cases hterminal : terminal = terminal'
    · simp [hterminal]
    · cases rows[state]? <;> simp [Std.ExtTreeMap.getElem?_insert, hterminal]
  · simp [Std.ExtTreeMap.getElem?_insert, hstate]

theorem Tidy.put (h : rows.Tidy) (value : β) : (rows.put state terminal value).Tidy := by
  intro state' row hrow
  rw [RowMap.put, Std.ExtTreeMap.getElem?_insert] at hrow
  split at hrow
  · exact Option.some.inj hrow ▸ Std.ExtTreeMap.insert_ne_empty
  · exact h state' row hrow

theorem Tidy.exists_at? (h : rows.Tidy) (hstate : state ∈ rows) :
    ∃ terminal value, rows.at? state terminal = some value := by
  have hrow := Std.ExtTreeMap.getElem?_eq_some_getElem hstate
  by_contra hnone
  refine h state _ hrow (Std.ExtTreeMap.eq_empty_iff_forall_not_mem.mpr fun terminal hmem => hnone ?_)
  exact ⟨terminal, _, by rw [at?, hrow, Option.bind_some, Std.ExtTreeMap.getElem?_eq_some_getElem hmem]⟩

theorem Tidy.eq_of_at? (h : rows.Tidy) (h' : rows'.Tidy)
    (heq : ∀ state terminal, rows.at? state terminal = rows'.at? state terminal) : rows = rows' := by
  have hnone {rows rows' : RowMap β} (h : rows.Tidy)
      (heq : ∀ state terminal, rows.at? state terminal = rows'.at? state terminal) {state : Nat}
      (hrow' : rows'[state]? = none) : rows[state]? = none := by
    refine Std.ExtTreeMap.getElem?_eq_none fun hmem => ?_
    obtain ⟨terminal, value, hvalue⟩ := h.exists_at? hmem
    rw [heq, at?, hrow'] at hvalue
    cases hvalue
  refine Std.ExtTreeMap.ext_getElem? fun state => ?_
  cases hrow : rows[state]? with
  | none => exact (hnone h' (fun state terminal => (heq state terminal).symm) hrow).symm
  | some row => cases hrow' : rows'[state]? with
    | none => simp [hnone h heq hrow'] at hrow
    | some row' =>
        refine congrArg some (Std.ExtTreeMap.ext_getElem? fun terminal => ?_)
        simpa [at?, hrow, hrow'] using heq state terminal

end RowMap

-- The least of some names, if there is one.
def IsFirst (names : Set String) : Option String → Prop
  | none => names = ∅
  | some name => IsLeast names name

theorem IsFirst.unique {names : Set String} {first first' : Option String} (h : IsFirst names first)
    (h' : IsFirst names first') : first = first' := by
  cases first with
  | none => cases first' with
    | none => rfl
    | some name' => exact absurd (h ▸ h'.1) (Set.notMem_empty _)
  | some name => cases first' with
    | none => exact absurd (h' ▸ h.1) (Set.notMem_empty _)
    | some name' => exact congrArg some (IsLeast.unique h h')

theorem RowMap.isFirst_first? {β : Type} (rows : RowMap β) (state : Nat) :
    IsFirst {terminal | (rows.at? state terminal).isSome} (rows.first? state) := by
  unfold first? at?
  cases rows[state]? with
  | none => simp [IsFirst]
  | some row =>
      rw [Option.bind_some]
      cases hmin : row.minKey? with
      | none =>
          rw [Std.ExtTreeMap.minKey?_eq_none_iff] at hmin
          simp [IsFirst, hmin]
      | some terminal =>
          obtain ⟨hmem, hle⟩ := Std.ExtTreeMap.minKey?_eq_some_iff_mem_and_forall.mp hmin
          refine ⟨Std.ExtTreeMap.mem_iff_isSome_getElem?.mp hmem, fun other hother => ?_⟩
          exact compare_le_iff_le.mp (Ordering.isLE_iff_ne_gt.mp
            (hle other (Std.ExtTreeMap.mem_iff_isSome_getElem?.mpr hother)))

namespace ActionTable

variable (table : ActionTable) (state : Nat)

theorem isFirst_firstShift? :
    IsFirst {terminal | ∃ next, table.cell? state terminal = some (.shift next)}
      (table.firstShift? state) := by
  cases hfirst : table.firstShift? state with
  | none =>
      refine Set.eq_empty_of_forall_notMem fun terminal ⟨next, hnext⟩ => ?_
      exact cell?_ne_shift_of_firstShift? hfirst terminal next hnext
  | some terminal => exact isLeast_of_firstShift? hfirst

theorem isFirst_firstAccept? :
    IsFirst {terminal | table.cell? state terminal = some .accept} (table.firstAccept? state) := by
  cases hfirst : table.firstAccept? state with
  | none => exact Set.eq_empty_of_forall_notMem (cell?_ne_accept_of_firstAccept? hfirst)
  | some terminal => exact isLeast_of_firstAccept? hfirst

end ActionTable

-- The entries of an action table, each kind in a map of its own. Nothing but the checks of the calls that add
-- them keeps them from one another.
structure Entries where
  shifts : RowMap Nat
  reduces : Std.ExtTreeMap Nat Nat
  accepts : RowMap Unit

namespace Entries

def empty : Entries := ⟨∅, ∅, ∅⟩

def action? (entries : Entries) (state : Nat) (terminal : String) : Option Action :=
  if (entries.accepts.at? state terminal).isSome then some .accept
  else if let some next := entries.shifts.at? state terminal then some (.shift next)
  else entries.reduces[state]?.map .reduce

-- Entries are changed in place: what has been changed before a conflict stays changed.
abbrev Change := ExceptT Conflict (StateM Entries) Unit

def addShift (state : Nat) (terminal : String) (next : Nat) : Change := do
  let entries ← get
  match entries.shifts.at? state terminal with
  | some other => if other ≠ next then throw (.shiftShift state terminal)
  | none =>
    if entries.reduces[state]?.isSome then throw (.shiftReduce state terminal)
    if (entries.accepts.at? state terminal).isSome then throw (.shiftAccept state terminal)
    set { entries with shifts := entries.shifts.put state terminal next }

def addReduce (state rule : Nat) : Change := do
  let entries ← get
  match entries.reduces[state]? with
  | some other => if other ≠ rule then throw (.reduceReduce state)
  | none =>
    if let some terminal := entries.shifts.first? state then throw (.shiftReduce state terminal)
    if let some terminal := entries.accepts.first? state then throw (.reduceAccept state terminal)
    set { entries with reduces := entries.reduces.insert state rule }

def addAccept (state : Nat) (terminal : String) : Change := do
  let entries ← get
  if (entries.shifts.at? state terminal).isSome then throw (.shiftAccept state terminal)
  if entries.reduces[state]?.isSome then throw (.reduceAccept state terminal)
  set { entries with accepts := entries.accepts.put state terminal () }

-- How a change ends and what it leaves.
def apply (entries : Entries) (change : Change) : Except Conflict Unit × Entries :=
  (change.run.run entries).run

theorem apply_get_bind (entries : Entries) (change : Entries → Change) :
    entries.apply (get >>= change) = entries.apply (change entries) := rfl

theorem apply_bind (entries : Entries) (change next : Change) :
    entries.apply (change >>= fun _ => next) =
      match entries.apply change with
      | (.ok (), after) => after.apply next
      | (.error conflict, after) => (.error conflict, after) := by
  simp only [apply, ExceptT.run_bind, StateT.run_bind, Id.run_bind]
  rcases (change.run.run entries).run with ⟨_ | _, after⟩ <;> rfl

-- What the kinds of entries may not have at once.
structure ConflictFree (entries : Entries) : Prop where
  reduce_shift : ∀ state ∈ entries.reduces, state ∉ entries.shifts
  reduce_accept : ∀ state ∈ entries.reduces, state ∉ entries.accepts
  shift_accept : ∀ state terminal, (entries.accepts.at? state terminal).isSome →
    entries.shifts.at? state terminal = none

end Entries

def Cell.next? : Cell → Option Nat
  | .shift next => some next
  | .accept => none

def Cell.accept? : Cell → Option Unit
  | .shift _ => none
  | .accept => some ()

-- The entries say the same as the table.
structure ActionTable.KeptBy (table : ActionTable) (entries : Entries) : Prop where
  shift : ∀ state terminal,
    entries.shifts.at? state terminal = (table.cell? state terminal).bind Cell.next?
  reduce : ∀ state : Nat, entries.reduces[state]? = table.reduce? state
  accept : ∀ state terminal,
    entries.accepts.at? state terminal = (table.cell? state terminal).bind Cell.accept?
  tidy_shifts : entries.shifts.Tidy
  tidy_accepts : entries.accepts.Tidy

-- What a call makes of the entries, beside what it makes of the table.
inductive Entries.Outcome (entries : Entries) :
    Except Conflict ActionTable → Except Conflict Unit × Entries → Prop
  | done {table : ActionTable} {after : Entries} : table.KeptBy after →
      Outcome entries (.ok table) (.ok (), after)
  | refused (conflict : Conflict) : Outcome entries (.error conflict) (.error conflict, entries)

namespace ActionTable.KeptBy

variable {table : ActionTable} {entries entries' : Entries} {state rule next : Nat} {terminal : String}

theorem empty : ActionTable.empty.KeptBy .empty := by
  constructor <;>
    simp [ActionTable.empty, Entries.empty, RowMap.at?, RowMap.Tidy, cell?, cells?, reduce?]

theorem unique (h : table.KeptBy entries) (h' : table.KeptBy entries') : entries = entries' := by
  obtain ⟨shifts, reduces, accepts⟩ := entries
  obtain ⟨shifts', reduces', accepts'⟩ := entries'
  congr 1
  · exact h.tidy_shifts.eq_of_at? h'.tidy_shifts fun state terminal =>
      (h.shift state terminal).trans (h'.shift state terminal).symm
  · exact Std.ExtTreeMap.ext_getElem? fun state => (h.reduce state).trans (h'.reduce state).symm
  · exact h.tidy_accepts.eq_of_at? h'.tidy_accepts fun state terminal =>
      (h.accept state terminal).trans (h'.accept state terminal).symm

theorem shift_eq_some_iff (h : table.KeptBy entries) : entries.shifts.at? state terminal = some next ↔
    table.cell? state terminal = some (.shift next) := by
  rw [h.shift]
  rcases table.cell? state terminal with _ | _ | _ <;> simp [Cell.next?]

theorem isSome_accept_iff (h : table.KeptBy entries) : (entries.accepts.at? state terminal).isSome ↔
    table.cell? state terminal = some .accept := by
  rw [h.accept]
  rcases table.cell? state terminal with _ | _ | _ <;> simp [Cell.accept?]

theorem notMem_reduces {cell : Cell} (h : table.KeptBy entries)
    (hcell : table.cell? state terminal = some cell) : state ∉ entries.reduces := by
  rw [Std.ExtTreeMap.mem_iff_isSome_getElem?, h.reduce, reduce?_eq_none_of_cell? hcell]
  exact Bool.false_ne_true

theorem conflictFree (h : table.KeptBy entries) : entries.ConflictFree where
  reduce_shift state hreduce hshift := by
    obtain ⟨terminal, next, hnext⟩ := h.tidy_shifts.exists_at? hshift
    exact h.notMem_reduces (h.shift_eq_some_iff.mp hnext) hreduce
  reduce_accept state hreduce haccept := by
    obtain ⟨terminal, _, hmark⟩ := h.tidy_accepts.exists_at? haccept
    exact h.notMem_reduces (h.isSome_accept_iff.mp (Option.isSome_of_eq_some hmark)) hreduce
  shift_accept state terminal haccept := by
    rw [h.shift, h.isSome_accept_iff.mp haccept]
    rfl

theorem action?_eq (h : table.KeptBy entries) (state : Nat) (terminal : String) :
    entries.action? state terminal = table.action? state terminal := by
  rw [ActionTable.action?_eq, Entries.action?, h.shift, h.reduce, h.accept]
  rcases table.cell? state terminal with _ | _ | _ <;> rfl

theorem first?_shifts (h : table.KeptBy entries) (state : Nat) :
    entries.shifts.first? state = table.firstShift? state := by
  refine (entries.shifts.isFirst_first? state).unique ?_
  simp only [Option.isSome_iff_exists, h.shift_eq_some_iff]
  exact table.isFirst_firstShift? state

theorem first?_accepts (h : table.KeptBy entries) (state : Nat) :
    entries.accepts.first? state = table.firstAccept? state := by
  refine (entries.accepts.isFirst_first? state).unique ?_
  simp only [h.isSome_accept_iff]
  exact table.isFirst_firstAccept? state

theorem setShift (h : table.KeptBy entries) (hcell : table.cell? state terminal = none)
    (hreduce : table.reduce? state = none) : (table.setCell state terminal (.shift next)).KeptBy
      { entries with shifts := entries.shifts.put state terminal next } where
  shift state' terminal' := by
    rw [RowMap.at?_put, cell?_setCell, h.shift]
    split <;> rfl
  reduce state' := by
    rw [reduce?_setCell, h.reduce]
    split <;> simp_all
  accept state' terminal' := by
    rw [cell?_setCell, h.accept]
    split
    · simp_all [Cell.accept?]
    · rfl
  tidy_shifts := h.tidy_shifts.put next
  tidy_accepts := h.tidy_accepts

theorem setReduce (h : table.KeptBy entries) (hcell : ∀ terminal, table.cell? state terminal = none) :
    (table.setReduce state rule).KeptBy
      { entries with reduces := entries.reduces.insert state rule } where
  shift state' terminal' := by
    rw [cell?_setReduce, h.shift]
    split <;> simp_all
  reduce state' := by
    rw [reduce?_setReduce, Std.ExtTreeMap.getElem?_insert, h.reduce]
    simp
  accept state' terminal' := by
    rw [cell?_setReduce, h.accept]
    split <;> simp_all
  tidy_shifts := h.tidy_shifts
  tidy_accepts := h.tidy_accepts

theorem setAccept (h : table.KeptBy entries)
    (hcell : table.cell? state terminal = none ∨ table.cell? state terminal = some .accept)
    (hreduce : table.reduce? state = none) : (table.setCell state terminal .accept).KeptBy
      { entries with accepts := entries.accepts.put state terminal () } where
  shift state' terminal' := by
    rw [cell?_setCell, h.shift]
    split
    · rename_i hsame
      obtain ⟨rfl, rfl⟩ := hsame
      rcases hcell with hcell | hcell <;> simp [hcell, Cell.next?]
    · rfl
  reduce state' := by
    rw [reduce?_setCell, h.reduce]
    split <;> simp_all
  accept state' terminal' := by
    rw [RowMap.at?_put, cell?_setCell, h.accept]
    split <;> rfl
  tidy_shifts := h.tidy_shifts
  tidy_accepts := h.tidy_accepts.put ()

theorem outcome_addShift (h : table.KeptBy entries) :
    entries.Outcome (table.addShift state terminal next)
      (entries.apply (Entries.addShift state terminal next)) := by
  rw [Entries.addShift, Entries.apply_get_bind, h.shift, h.reduce, h.accept, addShift]
  cases hcell : table.cell? state terminal with
  | none => cases hreduce : table.reduce? state with
    | none => exact .done (h.setShift hcell hreduce)
    | some rule => exact .refused _
  | some cell => cases cell with
    | shift other =>
        simp only [Option.bind_some, Cell.next?]
        by_cases heq : other = next
        · rw [if_pos heq, if_neg (not_not.mpr heq)]
          exact .done h
        · rw [if_neg heq, if_pos heq]
          exact .refused _
    | accept => cases hreduce : table.reduce? state <;> exact .refused _

theorem outcome_addReduce (h : table.KeptBy entries) :
    entries.Outcome (table.addReduce state rule) (entries.apply (Entries.addReduce state rule)) := by
  rw [Entries.addReduce, Entries.apply_get_bind, h.reduce, h.first?_shifts, h.first?_accepts, addReduce]
  cases hreduce : table.reduce? state with
  | some other =>
      simp only
      by_cases heq : other = rule
      · rw [if_pos heq, if_neg (not_not.mpr heq)]
        exact .done h
      · rw [if_neg heq, if_pos heq]
        exact .refused _
  | none => cases hshift : table.firstShift? state with
    | some terminal => exact .refused _
    | none => cases haccept : table.firstAccept? state with
      | some terminal => exact .refused _
      | none => exact .done (h.setReduce (cell?_eq_none_of_first hshift haccept))

theorem outcome_addAccept (h : table.KeptBy entries) :
    entries.Outcome (table.addAccept state terminal)
      (entries.apply (Entries.addAccept state terminal)) := by
  rw [Entries.addAccept, Entries.apply_get_bind, h.shift, h.reduce, addAccept]
  cases hcell : table.cell? state terminal with
  | none => cases hreduce : table.reduce? state with
    | none => exact .done (h.setAccept (.inl hcell) hreduce)
    | some rule => exact .refused _
  | some cell => cases cell with
    | shift other => exact .refused _
    | accept => cases hreduce : table.reduce? state with
      | none => exact .done (h.setAccept (.inr hcell) hreduce)
      | some rule => exact .refused _

end ActionTable.KeptBy

end Handheld
