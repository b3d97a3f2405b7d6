import Handheld.Proofs.ShiftReduce.Settling

namespace Handheld.Tables

open Relation (ReflTransGen TransGen)

variable {tables : Tables} {base state : Nat} {states after rest : List Nat}

def ReducesAbove (tables : Tables) (base : Nat) (before after : List Nat) : Prop :=
  tables.reduceAbove? base before = some after

def SettlesAbove (tables : Tables) (base : Nat) (states : List Nat) : Prop :=
  ∃ count final, tables.Settles base states count final

-- With nothing above a state, the reductions put the same state on top of it once more.
def Climbs (tables : Tables) (state : Nat) : Prop :=
  ∃ more, TransGen (tables.ReducesAbove state) [] (state :: more)

-- The reductions bring a state back to its own place.
def Circles (tables : Tables) (base state : Nat) : Prop :=
  TransGen (tables.ReducesAbove base) [state] [state]

-- The top of a stack of states climbs or circles.
def LoopsAbove (tables : Tables) (base : Nat) (states : List Nat) : Prop :=
  tables.Climbs (states.headD base) ∨
    ∃ state rest, states = state :: rest ∧ tables.Circles (rest.headD base) state

-- What happens above a stack sees no more of it than its top.
theorem ReducesAbove.append (h : tables.ReducesAbove (rest.headD base) states after) :
    tables.ReducesAbove base (states ++ rest) (after ++ rest) := by
  cases rest with
  | nil => simpa using h
  | cons state rest => exact reduceAbove?_append h base rest

theorem reducesTo_append (rest : List Nat)
    (h : ReflTransGen (tables.ReducesAbove (rest.headD base)) states after) :
    ReflTransGen (tables.ReducesAbove base) (states ++ rest) (after ++ rest) :=
  ReflTransGen.lift (· ++ rest) (fun _ _ hstep => hstep.append) _ _ h

theorem reducesOn_append (rest : List Nat)
    (h : TransGen (tables.ReducesAbove (rest.headD base)) states after) :
    TransGen (tables.ReducesAbove base) (states ++ rest) (after ++ rest) :=
  TransGen.lift (· ++ rest) (fun _ _ hstep => hstep.append) _ _ h

theorem headD_append (states rest : List Nat) (base : Nat) :
    (states ++ rest).headD base = states.headD (rest.headD base) := by
  cases states <;> rfl

theorem LoopsAbove.append (rest : List Nat) (h : tables.LoopsAbove (rest.headD base) states) :
    tables.LoopsAbove base (states ++ rest) := by
  rcases h with hclimbs | ⟨state, below, rfl, hcircles⟩
  · exact .inl (by rwa [headD_append])
  · exact .inr ⟨state, below ++ rest, rfl, by rwa [headD_append]⟩

theorem SettlesAbove.of_reducesTo (hreduces : ReflTransGen (tables.ReducesAbove base) states after)
    (h : tables.SettlesAbove base after) : tables.SettlesAbove base states := by
  induction hreduces using ReflTransGen.head_induction_on with
  | refl => exact h
  | head hstep _ ih =>
      obtain ⟨count, final, hsettles⟩ := ih
      exact ⟨count + 1, final, .step hstep hsettles⟩

theorem SettlesAbove.exists_final (h : tables.SettlesAbove base states) :
    ∃ final, ReflTransGen (tables.ReducesAbove base) states final ∧
      tables.reduceAbove? base final = none := by
  obtain ⟨count, final, hsettles⟩ := h
  induction hsettles with
  | done hnone => exact ⟨_, .refl, hnone⟩
  | step hsome _ ih =>
      obtain ⟨final, hreduces, hnone⟩ := ih
      exact ⟨final, .head hsome hreduces, hnone⟩

-- Reductions on the way leave fewer to do.
theorem Settles.exists_lt {count : Nat} {final : List Nat} (h : tables.Settles base states count final)
    (hreduces : TransGen (tables.ReducesAbove base) states after) :
    ∃ less < count, tables.Settles base after less final := by
  have hstep {states after : List Nat} {count : Nat} (h : tables.Settles base states count final)
      (hstep : tables.ReducesAbove base states after) :
      ∃ less < count, tables.Settles base after less final := by
    cases h with
    | done hnone => simp [ReducesAbove, hnone] at hstep
    | @step _ middle _ count hsome hrest =>
        obtain rfl := Option.some.inj (hsome.symm.trans hstep)
        exact ⟨count, Nat.lt_succ_self _, hrest⟩
  induction hreduces with
  | single hfirst => exact hstep h hfirst
  | tail _ hlast ih =>
      obtain ⟨less, hless, hsettles⟩ := ih
      obtain ⟨less', hless', hsettles'⟩ := hstep hsettles hlast
      exact ⟨less', hless'.trans hless, hsettles'⟩

-- A loop leads to a loop, higher up or where it was.
theorem LoopsAbove.exists_next (h : tables.LoopsAbove base states) :
    ∃ states', TransGen (tables.ReducesAbove base) states states' ∧ tables.LoopsAbove base states' := by
  rcases h with ⟨more, hclimbs⟩ | ⟨state, rest, rfl, hcircles⟩
  · exact ⟨_, reducesOn_append states hclimbs, .inl ⟨more, hclimbs⟩⟩
  · exact ⟨_, reducesOn_append rest hcircles, .inr ⟨state, rest, rfl, hcircles⟩⟩

theorem LoopsAbove.not_settlesAbove (h : tables.LoopsAbove base states) :
    ¬ tables.SettlesAbove base states := by
  rintro ⟨count, final, hsettles⟩
  induction count using Nat.strong_induction_on generalizing states with
  | _ count ih =>
      obtain ⟨states', hreduces, hloops⟩ := h.exists_next
      obtain ⟨less, hless, hsettles'⟩ := hsettles.exists_lt hreduces
      exact ih less hless hloops hsettles'

section Nodes

variable {nodes : Finset Nat}
  (hgotos : ∀ below name next, tables.goto? below name = some next → next ∈ nodes)

include hgotos

theorem mem_of_reducesTo {top : Nat} (hstate : state ∈ nodes)
    (h : ReflTransGen (tables.ReducesAbove base) (state :: rest) (top :: after)) : top ∈ nodes := by
  cases h with
  | refl => exact hstate
  | tail _ hstep =>
      obtain ⟨_, _, next, _, _, _, hgoto, heq⟩ := reduceAbove?_eq_some_iff.mp hstep
      exact (List.cons.inj heq).1 ▸ hgotos _ _ _ hgoto

-- In one place: as long as what comes above each state there settles, and none of them comes back, one
-- comes after the other until there is no state left. `fresh` has the states that have not been there.
theorem settlesAbove_singleton (hstate : state ∈ nodes)
    (htops : ∀ top, ReflTransGen (tables.ReducesAbove base) [state] [top] →
      tables.SettlesAbove top [] ∧ ¬ tables.Circles base top) :
    tables.SettlesAbove base [state] := by
  suffices h : ∀ fresh : Finset Nat,
      (∀ top ∈ nodes, top ∈ fresh ∨ TransGen (tables.ReducesAbove base) [top] [state]) →
      tables.SettlesAbove base [state] from h nodes fun top htop => .inl htop
  intro fresh hfresh
  induction hcard : fresh.card using Nat.strong_induction_on generalizing state fresh with
  | _ card ih =>
  obtain ⟨habove, hcircles⟩ := htops state .refl
  obtain ⟨final, hreduces, hnone⟩ := habove.exists_final
  have hlifted : ReflTransGen (tables.ReducesAbove base) [state] (final ++ [state]) :=
    reducesTo_append [state] hreduces
  cases hafter : tables.reduceAbove? base (final ++ [state]) with
  | none => exact .of_reducesTo hlifted ⟨0, _, .done hafter⟩
  | some after =>
      obtain ⟨_, _, next, removed, hgoto, rfl⟩ := exists_of_reduceAbove?_append hnone hafter
      rw [List.drop_nil] at hafter
      have hnext : TransGen (tables.ReducesAbove base) [state] [next] := .tail' hlifted hafter
      have hmem : state ∈ fresh := (hfresh state hstate).resolve_right hcircles
      refine .of_reducesTo hnext.to_reflTransGen
        (ih _ (hcard ▸ Finset.card_erase_lt_of_mem hmem) (hgotos _ _ _ hgoto)
          (fun top htop => htops top (hnext.to_reflTransGen.trans htop)) (fresh.erase state) ?_ rfl)
      intro top htop
      by_cases heq : top = state
      · exact .inr (heq ▸ hnext)
      · exact (hfresh top htop).imp (fun hfresh => Finset.mem_erase.mpr ⟨heq, hfresh⟩) (·.trans hnext)

-- Above one state: the states that come to lie on top of each other are all different, or else one of them
-- would climb. `fresh` has those that do not lie below.
theorem settlesAbove_nil (hloops : ∀ states, ReflTransGen (tables.ReducesAbove base) [] states →
      ¬ tables.LoopsAbove base states) : tables.SettlesAbove base [] := by
  suffices h : ∀ fresh : Finset Nat,
      (∀ state ∈ nodes, state ∈ fresh ∨ state = base ∨
        ∃ more, TransGen (tables.ReducesAbove state) [] (base :: more)) →
      tables.SettlesAbove base [] from h nodes fun state hstate => .inl hstate
  intro fresh hfresh
  induction hcard : fresh.card using Nat.strong_induction_on generalizing base fresh with
  | _ card ih =>
  cases hafter : tables.reduceAbove? base [] with
  | none => exact ⟨0, [], .done hafter⟩
  | some after =>
      obtain ⟨_, production, next, _, _, _, hgoto, rfl⟩ := reduceAbove?_eq_some_iff.mp hafter
      rw [List.drop_nil] at hafter
      have hfirst : ReflTransGen (tables.ReducesAbove base) [] [next] := .single hafter
      refine .of_reducesTo hfirst (settlesAbove_singleton hgotos (hgotos _ _ _ hgoto) fun top htop => ?_)
      have hpush : TransGen (tables.ReducesAbove base) [] [top] := .head' hafter htop
      have hnot := hloops [top] hpush.to_reflTransGen
      have hclimbs {state : Nat} {more : List Nat}
          (h : TransGen (tables.ReducesAbove state) [] (base :: more)) :
          TransGen (tables.ReducesAbove state) [] (top :: base :: more) :=
        h.trans (reducesOn_append (base :: more) hpush)
      refine ⟨?_, fun hcircles => hnot (.inr ⟨top, [], rfl, hcircles⟩)⟩
      have hmem : top ∈ fresh := by
        rcases hfresh top (mem_of_reducesTo hgotos (hgotos _ _ _ hgoto) htop) with hmem | rfl | ⟨more, hmore⟩
        · exact hmem
        · exact absurd (.inl ⟨[], hpush⟩) hnot
        · exact absurd (.inl ⟨_, hclimbs hmore⟩) hnot
      refine ih _ (hcard ▸ Finset.card_erase_lt_of_mem hmem) ?_ (fresh.erase top) ?_ rfl
      · exact fun states hstates hloop => hloops (states ++ [top])
          (hpush.to_reflTransGen.trans (reducesTo_append [top] hstates))
          (hloop.append [top])
      · intro state hstate
        by_cases heq : state = top
        · exact .inr (.inl heq)
        · rcases hfresh state hstate with hmem | rfl | ⟨more, hmore⟩
          · exact .inl (Finset.mem_erase.mpr ⟨heq, hmem⟩)
          · exact .inr (.inr ⟨[], hpush⟩)
          · exact .inr (.inr ⟨_, hclimbs hmore⟩)

-- A stack whose reductions meet no loop settles: first its top does, in the place where it is, and then what
-- the next reduction leaves of it.
theorem settlesAbove_of_not_loops (hhead : ∀ state ∈ states.head?, state ∈ nodes)
    (hloops : ∀ states', ReflTransGen (tables.ReducesAbove base) states states' →
      ¬ tables.LoopsAbove base states') : tables.SettlesAbove base states := by
  induction hlength : states.length using Nat.strong_induction_on generalizing states with
  | _ length ih =>
  cases states with
  | nil => exact settlesAbove_nil hgotos hloops
  | cons state rest =>
      have hplace : tables.SettlesAbove (rest.headD base) [state] := by
        refine settlesAbove_singleton hgotos (hhead state (by simp)) fun top htop => ?_
        have hreach : ReflTransGen (tables.ReducesAbove base) (state :: rest) (top :: rest) :=
          reducesTo_append rest htop
        refine ⟨settlesAbove_nil hgotos fun above habove hloop => ?_, fun hcircles => ?_⟩
        · exact hloops (above ++ top :: rest) (hreach.trans (reducesTo_append (top :: rest) habove))
            (hloop.append (top :: rest))
        · exact hloops _ hreach (.inr ⟨top, rest, rfl, hcircles⟩)
      obtain ⟨final, hreduces, hnone⟩ := hplace.exists_final
      have hlifted : ReflTransGen (tables.ReducesAbove base) (state :: rest) (final ++ rest) :=
        reducesTo_append rest hreduces
      cases hafter : tables.reduceAbove? base (final ++ rest) with
      | none => exact .of_reducesTo hlifted ⟨0, _, .done hafter⟩
      | some after =>
          cases rest with
          | nil =>
              rw [List.append_nil] at hafter
              exact absurd (hnone.symm.trans hafter) (by simp)
          | cons below rest =>
              obtain ⟨_, _, next, removed, hgoto, rfl⟩ := exists_of_reduceAbove?_append hnone hafter
              have hnext := hlifted.tail hafter
              refine .of_reducesTo hnext (ih _ ?_ ?_ (fun states' h => hloops states' (hnext.trans h)) rfl)
              · simp only [← hlength, List.length_cons, List.length_drop]
                omega
              · simpa using hgotos _ _ _ hgoto

-- The reductions of a stack never end exactly when they meet a loop.
theorem settlesAbove_iff (hhead : ∀ state ∈ states.head?, state ∈ nodes) :
    tables.SettlesAbove base states ↔ ∀ states', ReflTransGen (tables.ReducesAbove base) states states' →
      ¬ tables.LoopsAbove base states' := by
  refine ⟨fun h states' hreduces hloops => ?_, settlesAbove_of_not_loops hgotos hhead⟩
  obtain ⟨count, final, hsettles⟩ := h
  rcases hreduces.cases_head with rfl | ⟨middle, hstep, hrest⟩
  · exact hloops.not_settlesAbove ⟨count, final, hsettles⟩
  · obtain ⟨less, _, hsettles'⟩ := hsettles.exists_lt (.head' hstep hrest)
    exact hloops.not_settlesAbove ⟨less, final, hsettles'⟩

end Nodes

end Handheld.Tables
