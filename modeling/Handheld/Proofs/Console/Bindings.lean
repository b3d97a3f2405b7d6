import Mathlib
import Handheld.Console.Bindings
import Handheld.Proofs.Data.Except

namespace Handheld.Console

namespace Key

variable {text : String} {key : Key}

theorem read?_name_char {c : Char} (h : c.toLower = c) : read? (name (.char c)) = some (.char c) := by
  by_cases hblank : c = ' '
  · subst hblank
    decide
  · simp [name, read?, h]

theorem read?_name_of_mem_named : ∀ entry ∈ named, read? entry.2.name = some entry.2 := by decide

-- A key is read back from the name that the legend shows it with.
theorem read?_name_of_read? (h : read? text = some key) : read? key.name = some key := by
  unfold read? at h
  split at h
  · obtain rfl := Option.some.inj h
    exact read?_name_char (Char.toLower_toLower_eq_toLower _)
  · obtain ⟨before, after, hnamed, _⟩ := List.lookup_eq_some_iff.mp h
    exact read?_name_of_mem_named _ (hnamed ▸ List.mem_append_right before List.mem_cons_self)

end Key

namespace Bindings

variable {names : KeyNames} {actions before : List Action} {action : Action} {bindings : Bindings}
  {error : BindingError} {key : Key}

-- Some actions with a key each that no other of them has.
structure OwnKeys (names : KeyNames) (actions : List Action) : Prop where
  readable : ∀ action ∈ actions, ∃ key, Key.read? (names action) = some key
  distinct : (actions.map fun action => Key.read? (names action)).Nodup

-- Why an action gets no key after some others: its name is no name of a key, or one of them has its key.
inductive Fails (names : KeyNames) (before : List Action) (action : Action) : BindingError → Prop
  | unknownKey : Key.read? (names action) = none →
      Fails names before action (.unknownKey action (names action))
  | duplicate {first : Action} {key : Key} : first ∈ before → Key.read? (names first) = some key →
      Key.read? (names action) = some key → Fails names before action (.duplicate first action)

theorem OwnKeys.eq_of_read? (h : OwnKeys names actions) {first second : Action} (hfirst : first ∈ actions)
    (hsecond : second ∈ actions) (hread : Key.read? (names first) = Key.read? (names second)) :
    first = second :=
  List.inj_on_of_nodup_map h.distinct hfirst hsecond hread

theorem ownKeys_concat_iff : OwnKeys names (before ++ [action]) ↔ OwnKeys names before ∧
    ∃ key, Key.read? (names action) = some key ∧
      ∀ first ∈ before, Key.read? (names first) ≠ some key := by
  constructor
  · rintro ⟨hreadable, hdistinct⟩
    rw [List.map_append, List.nodup_append] at hdistinct
    obtain ⟨hbefore, _, hlast⟩ := hdistinct
    obtain ⟨key, hkey⟩ := hreadable action (by simp)
    refine ⟨⟨fun other hother => hreadable other (by simp [hother]), hbefore⟩, key, hkey, ?_⟩
    intro first hfirst
    exact hlast _ (List.mem_map_of_mem hfirst) _ (by simp [hkey])
  · rintro ⟨⟨hreadable, hdistinct⟩, key, hkey, hunused⟩
    constructor
    · simp only [List.forall_mem_append, List.forall_mem_singleton]
      exact ⟨hreadable, key, hkey⟩
    · rw [List.map_append, List.nodup_append]
      refine ⟨hdistinct, List.nodup_singleton _, ?_⟩
      simpa [hkey] using hunused

-- The keys of some actions, as far as they can be read.
def entries (names : KeyNames) (actions : List Action) : List (Key × Action) :=
  actions.filterMap fun action => (Key.read? (names action)).map (·, action)

theorem entries_concat (hkey : Key.read? (names action) = some key) :
    entries names (before ++ [action]) = entries names before ++ [(key, action)] := by
  simp [entries, hkey]

theorem lookup_entries (names : KeyNames) (actions : List Action) (key : Key) :
    (entries names actions).lookup key = actions.find? fun action => Key.read? (names action) = some key := by
  induction actions with
  | nil => rfl
  | cons action actions ih =>
      unfold entries at ih ⊢
      cases hread : Key.read? (names action) with
      | none => simp [hread, ih]
      | some found =>
          by_cases hkey : found = key
          · subst hkey
            simp [hread]
          · have hbeq : (key == found) = false := beq_eq_false_iff_ne.mpr (Ne.symm hkey)
            simp [hread, List.lookup_cons, hbeq, hkey, ih]

theorem Fails.not_ownKeys (h : Fails names before action error) : ¬ OwnKeys names (before ++ [action]) := by
  intro hkeys
  obtain ⟨_, key, hkey, hunused⟩ := ownKeys_concat_iff.mp hkeys
  cases h with
  | unknownKey hread => simp [hread] at hkey
  | duplicate hfirst hused hread => exact hunused _ hfirst (by rw [hused, ← hread, hkey])

theorem Fails.unique (hkeys : OwnKeys names before) {error' : BindingError}
    (h : Fails names before action error) (h' : Fails names before action error') : error = error' := by
  cases h with
  | unknownKey hread =>
      cases h' with
      | unknownKey => rfl
      | duplicate _ _ hread' => simp [hread] at hread'
  | duplicate hfirst hused hread =>
      cases h' with
      | unknownKey hread' => simp [hread] at hread'
      | duplicate hfirst' hused' hread' =>
          rw [hkeys.eq_of_read? hfirst hfirst' (by rw [hused, hused', ← hread, ← hread'])]

-- All that the binding of one more action can do.
theorem bind_cases (names : KeyNames) (action : Action) (h : OwnKeys names before) :
    (OwnKeys names (before ++ [action]) ∧
      bind names ⟨entries names before⟩ action = .ok ⟨entries names (before ++ [action])⟩) ∨
    ∃ error, Fails names before action error ∧ bind names ⟨entries names before⟩ action = .error error := by
  unfold bind
  cases hread : Key.read? (names action) with
  | none => exact .inr ⟨_, .unknownKey hread, rfl⟩
  | some key =>
      dsimp only
      rw [lookup_entries, entries_concat hread]
      cases hfind : before.find? fun first => Key.read? (names first) = some key with
      | none =>
          have hunused : ∀ first ∈ before, Key.read? (names first) ≠ some key := by simpa using hfind
          exact .inl ⟨ownKeys_concat_iff.mpr ⟨h, key, hread, hunused⟩, rfl⟩
      | some first =>
          have hused : Key.read? (names first) = some key := by simpa using List.find?_some hfind
          exact .inr ⟨_, .duplicate (List.mem_of_find?_eq_some hfind) hused hread, rfl⟩

theorem bind_entries_eq_ok_iff (h : OwnKeys names before) :
    bind names ⟨entries names before⟩ action = .ok bindings ↔ OwnKeys names (before ++ [action]) ∧
      bindings = ⟨entries names (before ++ [action])⟩ := by
  rcases bind_cases names action h with ⟨hkeys, hbind⟩ | ⟨error, hfails, hbind⟩
  · simp [hbind, hkeys, eq_comm]
  · simp [hbind, hfails.not_ownKeys]

theorem bind_entries_eq_error_iff (h : OwnKeys names before) :
    bind names ⟨entries names before⟩ action = .error error ↔ Fails names before action error := by
  rcases bind_cases names action h with ⟨hkeys, hbind⟩ | ⟨error', hfails, hbind⟩
  · rw [hbind]
    exact iff_of_false (by simp) fun hfails => hfails.not_ownKeys hkeys
  · rw [hbind, Except.error.injEq]
    constructor
    · rintro rfl
      exact hfails
    · exact hfails.unique h

-- Actions are bound one after the other as long as each gets a key of its own. The induction is on what
-- has been bound, as each action is held against those before it.
theorem foldlM_bind_eq_ok_iff : actions.foldlM (bind names) ⟨[]⟩ = .ok bindings ↔
    OwnKeys names actions ∧ bindings = ⟨entries names actions⟩ := by
  induction actions using List.reverseRecOn generalizing bindings with
  | nil =>
      have hkeys : OwnKeys names [] := ⟨by simp, List.nodup_nil⟩
      simp [hkeys, entries, pure, Except.pure, eq_comm]
  | append_singleton before action ih =>
      simp only [List.foldlM_append, List.foldlM_cons, List.foldlM_nil, bind_pure, bind_eq_ok_iff]
      constructor
      · rintro ⟨middle, hbefore, hbind⟩
        obtain ⟨hkeys, rfl⟩ := ih.mp hbefore
        exact (bind_entries_eq_ok_iff hkeys).mp hbind
      · intro hkeys
        have hbefore := (ownKeys_concat_iff.mp hkeys.1).1
        exact ⟨_, ih.mpr ⟨hbefore, rfl⟩, (bind_entries_eq_ok_iff hbefore).mpr hkeys⟩

-- The error is that of the first action without a key of its own.
theorem foldlM_bind_eq_error_iff : actions.foldlM (bind names) ⟨[]⟩ = .error error ↔
    ∃ before action after, actions = before ++ action :: after ∧ OwnKeys names before ∧
      Fails names before action error := by
  constructor
  · intro h
    obtain ⟨before, action, after, middle, hactions, hbefore, hbind⟩ := exists_of_foldlM_eq_error h
    obtain ⟨hkeys, rfl⟩ := foldlM_bind_eq_ok_iff.mp hbefore
    exact ⟨before, action, after, hactions, hkeys, (bind_entries_eq_error_iff hkeys).mp hbind⟩
  · rintro ⟨before, action, after, rfl, hkeys, hfails⟩
    have hbefore := foldlM_bind_eq_ok_iff.mpr ⟨hkeys, rfl⟩
    have hbind := (bind_entries_eq_error_iff hkeys).mpr hfails
    rw [List.foldlM_append, hbefore]
    exact bind_eq_error_iff.mpr (.inr ⟨_, rfl, bind_eq_error_iff.mpr (.inl hbind)⟩)

theorem lookup_entries_eq_some_iff (h : OwnKeys names actions) :
    (entries names actions).lookup key = some action ↔
      action ∈ actions ∧ Key.read? (names action) = some key := by
  rw [lookup_entries]
  constructor
  · intro hfind
    exact ⟨List.mem_of_find?_eq_some hfind, by simpa using List.find?_some hfind⟩
  · rintro ⟨hmem, hread⟩
    have hsome : (actions.find? fun other => Key.read? (names other) = some key).isSome :=
      List.find?_isSome.mpr ⟨action, hmem, by simpa using hread⟩
    obtain ⟨found, hfind⟩ := Option.isSome_iff_exists.mp hsome
    have hused : Key.read? (names found) = some key := by simpa using List.find?_some hfind
    rw [hfind, h.eq_of_read? (List.mem_of_find?_eq_some hfind) hmem (hused.trans hread.symm)]

theorem mem_all (action : Action) : action ∈ Action.all := by
  cases action with
  | press button => cases button <;> decide
  | power | reset | quit => decide

-- The legend does not depend on the order that the keys are kept in.
theorem legend_perm {keys others : List (Key × Action)} (hperm : keys.Perm others)
    (hdistinct : (keys.map Prod.snd).Nodup) : legend ⟨keys⟩ = legend ⟨others⟩ := by
  let le (first second : Key × Action) : Bool := first.2.position ≤ second.2.position
  have hsorted (list : List (Key × Action)) : (list.mergeSort le).Pairwise (le · ·) := by
    apply List.pairwise_mergeSort
    · intro first second third hle hle'
      simp only [le, decide_eq_true_eq] at hle hle' ⊢
      omega
    · intro first second
      simp only [le, Bool.or_eq_true, decide_eq_true_eq]
      omega
  have hall : (keys.mergeSort le).Perm (others.mergeSort le) :=
    ((List.mergeSort_perm keys le).trans hperm).trans (List.mergeSort_perm others le).symm
  have hentries : keys.mergeSort le = others.mergeSort le := by
    refine hall.eq_of_pairwise (fun first second hfirst hsecond hle hge => ?_) (hsorted keys) (hsorted others)
    have hfirst : first ∈ keys := List.mem_mergeSort.mp hfirst
    have hsecond : second ∈ keys := hperm.mem_iff.mpr (List.mem_mergeSort.mp hsecond)
    have hposition := Nat.le_antisymm (of_decide_eq_true hle) (of_decide_eq_true hge)
    have haction : first.2 = second.2 := (List.idxOf_inj (mem_all _)).mp hposition
    exact List.inj_on_of_nodup_map hdistinct hfirst hsecond haction
  exact congrArg (fun list => " ".intercalate (list.map fun entry => entry.2.name ++ ":" ++ entry.1.name))
    hentries

-- The legend has the actions in their order, each with a name of its key.
theorem exists_legend (h : OwnKeys names Action.all) : ∃ labels : Action → String,
    legend ⟨entries names Action.all⟩ =
      " ".intercalate (Action.all.map fun action => action.name ++ ":" ++ labels action) ∧
    ∀ action, Key.read? (labels action) = Key.read? (names action) := by
  have hsorted : (entries names Action.all).Pairwise fun first second =>
      first.2.position ≤ second.2.position := by
    have hall : Action.all.Pairwise fun first second => first.position ≤ second.position := by decide
    refine List.pairwise_filterMap.mpr (hall.imp fun {first second} hle => ?_)
    rintro _ hfirst _ hsecond
    obtain ⟨_, _, rfl⟩ := Option.map_eq_some_iff.mp hfirst
    obtain ⟨_, _, rfl⟩ := Option.map_eq_some_iff.mp hsecond
    exact hle
  refine ⟨fun action => ((Key.read? (names action)).map Key.name).getD "", ?_, fun action => ?_⟩
  · rw [legend, List.mergeSort_of_pairwise (by simpa using hsorted), entries, List.map_filterMap,
      ← List.filterMap_eq_map]
    congr 1
    refine List.filterMap_congr fun action hmem => ?_
    obtain ⟨key, hkey⟩ := h.readable action hmem
    simp [hkey]
  · obtain ⟨key, hkey⟩ := h.readable action (mem_all action)
    simp only [hkey, Option.map_some, Option.getD_some]
    exact Key.read?_name_of_read? hkey

theorem ownKeys_all_iff : OwnKeys names Action.all ↔
    (∀ action, ∃ key, Key.read? (names action) = some key) ∧
      ∀ first second, first ≠ second → Key.read? (names first) ≠ Key.read? (names second) := by
  constructor
  · intro h
    refine ⟨fun action => h.readable action (mem_all action), fun first second hne hread => ?_⟩
    exact hne (h.eq_of_read? (mem_all first) (mem_all second) hread)
  · rintro ⟨hreadable, hdistinct⟩
    refine ⟨fun action _ => hreadable action, List.Nodup.map (fun first second hread => ?_) (by decide)⟩
    exact not_imp_not.mp (hdistinct first second) hread

theorem action?_eq_some_iff (h : OwnKeys names Action.all) {event : KeyEvent}
    (hevent : ¬(event.key = .char 'c' ∧ event.ctrl)) :
    action? ⟨entries names Action.all⟩ event = some action ↔
      Key.read? (names action) = some event.key.folded := by
  rw [action?, if_neg hevent, lookup_entries_eq_some_iff h]
  exact and_iff_right (mem_all action)

-- The actions can be bound exactly if all names are read and no two of them are the same key; else the
-- error is that of the first action that fails. Once bound, a key event asks for the action whose key it is,
-- without regard to case, and for nothing if it is the key of none; but Ctrl and c quit. The legend has the
-- actions in their order, each with a name of its key.
theorem ofNames_exact (names : KeyNames) :
    ((∃ bindings, ofNames names = .ok bindings) ↔
      (∀ action, ∃ key, Key.read? (names action) = some key) ∧
      ∀ first second, first ≠ second → Key.read? (names first) ≠ Key.read? (names second)) ∧
    (∀ error, ofNames names = .error error ↔ ∃ before action after,
      Action.all = before ++ action :: after ∧ OwnKeys names before ∧ Fails names before action error) ∧
    ∀ bindings, ofNames names = .ok bindings →
      (∀ event : KeyEvent, event.key = .char 'c' ∧ event.ctrl → bindings.action? event = some .quit) ∧
      (∀ event : KeyEvent, ¬(event.key = .char 'c' ∧ event.ctrl) →
        (∀ action, bindings.action? event = some action ↔ Key.read? (names action) = some event.key.folded) ∧
        (bindings.action? event = none ↔ ∀ action, Key.read? (names action) ≠ some event.key.folded)) ∧
      ∃ labels : Action → String,
        bindings.legend =
          " ".intercalate (Action.all.map fun action => action.name ++ ":" ++ labels action) ∧
        ∀ action, Key.read? (labels action) = Key.read? (names action) := by
  refine ⟨?_, fun error => foldlM_bind_eq_error_iff, fun bindings hbindings => ?_⟩
  · rw [← ownKeys_all_iff]
    constructor
    · rintro ⟨bindings, hbindings⟩
      exact (foldlM_bind_eq_ok_iff.mp hbindings).1
    · intro hkeys
      exact ⟨_, foldlM_bind_eq_ok_iff.mpr ⟨hkeys, rfl⟩⟩
  · obtain ⟨hkeys, rfl⟩ := foldlM_bind_eq_ok_iff.mp hbindings
    refine ⟨fun event hevent => if_pos hevent, fun event hevent => ⟨?_, ?_⟩, ?_⟩
    · exact fun action => action?_eq_some_iff hkeys hevent
    · simp only [Option.eq_none_iff_forall_ne_some, ne_eq, action?_eq_some_iff hkeys hevent]
    · exact exists_legend hkeys

-- Names in several spellings.
def spelled : KeyNames
  | .press .x => "A"
  | .press .y => "Space"
  | .press .a => "é"
  | .press .b => "É"
  | .press .start => "ENTER"
  | .power => ":"
  | .reset => "up"
  | .quit => "C"

def spelledBindings : Bindings where
  keys := [(.char 'a', .press .x), (.char ' ', .press .y), (.char 'é', .press .a), (.char 'É', .press .b),
    (.enter, .press .start), (.char ':', .power), (.up, .reset), (.char 'c', .quit)]

theorem ofNames_exact_spelled : ofNames spelled = .ok spelledBindings ∧
    spelledBindings.action? ⟨.char 'c', true, false, false⟩ = some .quit ∧
    ¬(Key.char 'A' = .char 'c' ∧ false = true) ∧
    spelledBindings.action? ⟨.char 'A', false, true, false⟩ = some (.press .x) ∧
    ofNames (fun _ => "A") = .error (.duplicate (.press .x) (.press .y)) := by
  have hbindings : ofNames spelled = .ok spelledBindings := by decide +kernel
  obtain ⟨hquit, hevents, _⟩ := (ofNames_exact spelled).2.2 _ hbindings
  have hread : Key.read? "A" = some (.char 'a') := by decide
  have hfirst : OwnKeys (fun _ => "A") [.press .x] := ⟨fun _ _ => ⟨_, hread⟩, List.nodup_singleton _⟩
  have hfails : Fails (fun _ => "A") [.press .x] (.press .y) (.duplicate (.press .x) (.press .y)) :=
    .duplicate (by simp) hread hread
  exact ⟨hbindings, hquit _ ⟨rfl, rfl⟩, by simp, ((hevents _ (by simp)).1 _).mpr (by decide),
    ((ofNames_exact _).2.1 _).mpr ⟨[.press .x], .press .y, _, rfl, hfirst, hfails⟩⟩

end Bindings

end Handheld.Console
