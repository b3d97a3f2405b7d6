import Mathlib.Data.List.Forall2

namespace Handheld

variable {ε ε' α β : Type}

theorem bind_eq_ok_iff {x : Except ε α} {f : α → Except ε β} {b : β} :
    x >>= f = .ok b ↔ ∃ a, x = .ok a ∧ f a = .ok b := by
  cases x <;> simp [bind, Except.bind]

theorem bind_eq_error_iff {x : Except ε α} {f : α → Except ε β} {e : ε} :
    x >>= f = .error e ↔ x = .error e ∨ ∃ a, x = .ok a ∧ f a = .error e := by
  cases x <;> simp [bind, Except.bind]

theorem map_eq_ok_iff {x : Except ε α} {f : α → β} {b : β} :
    x.map f = .ok b ↔ ∃ a, x = .ok a ∧ f a = b := by
  cases x <;> simp [Except.map]

theorem map_eq_error_iff {x : Except ε α} {f : α → β} {e : ε} : x.map f = .error e ↔ x = .error e := by
  cases x <;> simp [Except.map]

theorem mapError_eq_ok_iff {x : Except ε α} {f : ε → ε'} {a : α} :
    x.mapError f = .ok a ↔ x = .ok a := by
  cases x <;> simp [Except.mapError]

theorem mapError_eq_error_iff {x : Except ε α} {f : ε → ε'} {e : ε'} :
    x.mapError f = .error e ↔ ∃ e', x = .error e' ∧ f e' = e := by
  cases x <;> simp [Except.mapError]

theorem exists_of_isOk {x : Except ε α} (h : x.isOk) : ∃ a, x = .ok a := by
  cases x with
  | ok a => exact ⟨a, rfl⟩
  | error => simp [Except.isOk, Except.toBool] at h

-- A fold fails at the first of its steps that fails.
theorem exists_of_foldlM_eq_error {f : β → α → Except ε β} {inputs : List α} {init : β} {e : ε}
    (h : inputs.foldlM f init = .error e) : ∃ before input after b,
      inputs = before ++ input :: after ∧ before.foldlM f init = .ok b ∧ f b input = .error e := by
  induction inputs generalizing init with
  | nil => simp [pure, Except.pure] at h
  | cons input inputs ih =>
      rw [List.foldlM_cons] at h
      rcases bind_eq_error_iff.mp h with hfirst | ⟨b, hb, hrest⟩
      · exact ⟨[], input, inputs, init, rfl, rfl, hfirst⟩
      · obtain ⟨before, input', after, b', rfl, hbefore, hinput⟩ := ih hrest
        refine ⟨input :: before, input', after, b', rfl, ?_, hinput⟩
        rw [List.foldlM_cons]
        exact bind_eq_ok_iff.mpr ⟨b, hb, hbefore⟩

theorem forall₂_of_mapM_eq_ok {f : α → Except ε β} {inputs : List α} {outputs : List β}
    (h : inputs.mapM f = .ok outputs) : List.Forall₂ (fun a b => f a = .ok b) inputs outputs := by
  induction inputs generalizing outputs with
  | nil =>
      obtain rfl : [] = outputs := by simpa [pure, Except.pure] using h
      exact .nil
  | cons input inputs ih =>
      rw [List.mapM_cons] at h
      obtain ⟨output, houtput, h⟩ := bind_eq_ok_iff.mp h
      obtain ⟨rest, hrest, h⟩ := bind_eq_ok_iff.mp h
      obtain rfl : output :: rest = outputs := by simpa [pure, Except.pure] using h
      exact .cons houtput (ih hrest)

theorem mapM_id_map_ok (as : List α) : (as.map (Except.ok (ε := ε))).mapM id = .ok as := by
  induction as with
  | nil => rfl
  | cons a as ih =>
      rw [List.map_cons, List.mapM_cons, ih]
      rfl

theorem mapM_id_of_error (as : List α) (e : ε) (rest : List (Except ε α)) :
    (as.map Except.ok ++ Except.error e :: rest).mapM id = .error e := by
  induction as with
  | nil =>
      rw [List.map_nil, List.nil_append, List.mapM_cons]
      rfl
  | cons a as ih =>
      rw [List.map_cons, List.cons_append, List.mapM_cons, ih]
      rfl

theorem exists_append_of_forall₂ {R : α → β → Prop} {first rest : List α} {all : List β}
    (h : List.Forall₂ R (first ++ rest) all) : ∃ first' rest', all = first' ++ rest' ∧
      List.Forall₂ R first first' ∧ List.Forall₂ R rest rest' := by
  induction first generalizing all with
  | nil => exact ⟨[], all, rfl, .nil, h⟩
  | cons a first ih =>
      cases h with
      | cons hfirst hmore =>
          obtain ⟨first', rest', rfl, hfirst', hrest⟩ := ih hmore
          exact ⟨_ :: first', rest', rfl, .cons hfirst hfirst', hrest⟩

end Handheld
