import Handheld.Proofs.Automaton.Tables
import Handheld.Proofs.ShiftReduce.Steps
import Mathlib.Data.Finset.Card
import Mathlib.Tactic.Linarith
import Mathlib.Tactic.Ring

namespace Handheld.Tables

open Text

variable {tables : Tables} {base state count count' : Nat} {states after final final' rest : List Nat}

-- The states after the reduce that is due, above a base state that stays. Trees do not matter for it.
def reduceAbove? (tables : Tables) (base : Nat) (states : List Nat) : Option (List Nat) :=
  (tables.actions.reduce? (states.headD base)).bind fun rule =>
    (tables.production? rule).bind fun production =>
      if states.length < production.rhs.length then none
      else
        (tables.goto? ((states.drop production.rhs.length).headD base) production.lhs).map
          (· :: states.drop production.rhs.length)

theorem reduceAbove?_eq_some_iff :
    tables.reduceAbove? base states = some after ↔
      ∃ rule production next, tables.actions.reduce? (states.headD base) = some rule ∧
        tables.production? rule = some production ∧ production.rhs.length ≤ states.length ∧
        tables.goto? ((states.drop production.rhs.length).headD base) production.lhs = some next ∧
        next :: states.drop production.rhs.length = after := by
  simp only [reduceAbove?, Option.bind_eq_some_iff, Option.ite_none_left_eq_some,
    Option.map_eq_some_iff, Nat.not_lt]
  constructor
  · rintro ⟨rule, hrule, production, hproduction, hlength, next, hgoto, hafter⟩
    exact ⟨rule, production, next, hrule, hproduction, hlength, hgoto, hafter⟩
  · rintro ⟨rule, production, next, hrule, hproduction, hlength, hgoto, hafter⟩
    exact ⟨rule, hrule, production, hproduction, hlength, next, hgoto, hafter⟩

theorem topState_eq (stack : List (Nat × ParseTree)) : topState stack = (stack.map (·.1)).headD 0 := by
  cases stack <;> rfl

theorem reduceAbove?_of_reduces {stack stack' : List (Nat × ParseTree)}
    (h : tables.Reduces stack stack') :
    tables.reduceAbove? 0 (stack.map (·.1)) = some (stack'.map (·.1)) := by
  obtain ⟨hrule, hproduction, hlength, hgoto⟩ := h
  rw [topState_eq] at hrule hgoto
  exact reduceAbove?_eq_some_iff.mpr ⟨_, _, _, hrule, hproduction, by simpa using hlength,
    by simpa [List.map_drop] using hgoto, by simp [List.map_drop]⟩

theorem exists_reduces {stack : List (Nat × ParseTree)}
    (h : tables.reduceAbove? 0 (stack.map (·.1)) = some after) :
    ∃ stack', tables.Reduces stack stack' ∧ stack'.map (·.1) = after := by
  obtain ⟨rule, production, next, hrule, hproduction, hlength, hgoto, rfl⟩ :=
    reduceAbove?_eq_some_iff.mp h
  rw [← topState_eq] at hrule
  rw [← List.map_drop, ← topState_eq] at hgoto
  exact ⟨_, .intro hrule hproduction (by simpa using hlength) hgoto, by simp [List.map_drop]⟩

theorem headD_append_cons (states : List Nat) (state : Nat) (rest : List Nat) (base : Nat) :
    (states ++ state :: rest).headD base = states.headD state := by
  cases states <;> rfl

-- A reduce that leaves a state alone does not see what lies below it.
theorem reduceAbove?_append (h : tables.reduceAbove? state states = some after) (base : Nat)
    (rest : List Nat) :
    tables.reduceAbove? base (states ++ state :: rest) = some (after ++ state :: rest) := by
  obtain ⟨rule, production, next, hrule, hproduction, hlength, hgoto, rfl⟩ :=
    reduceAbove?_eq_some_iff.mp h
  have hdrop : (states ++ state :: rest).drop production.rhs.length =
      states.drop production.rhs.length ++ state :: rest := List.drop_append_of_le_length hlength
  exact reduceAbove?_eq_some_iff.mpr ⟨rule, production, next,
    by rw [headD_append_cons, hrule], hproduction, by simp; omega,
    by rw [hdrop, headD_append_cons, hgoto], by rw [hdrop, List.cons_append]⟩

-- The reduce that ends the stay of a state removes it, maybe with more below it.
theorem exists_of_reduceAbove?_append (h : tables.reduceAbove? state states = none)
    (hafter : tables.reduceAbove? base (states ++ state :: rest) = some after) :
    ∃ name below next removed, tables.goto? below name = some next ∧
      after = next :: rest.drop removed := by
  obtain ⟨rule, production, next, hrule, hproduction, hlength, hgoto, rfl⟩ :=
    reduceAbove?_eq_some_iff.mp hafter
  refine ⟨_, _, next, production.rhs.length - states.length - 1, hgoto, ?_⟩
  have hlt : states.length < production.rhs.length := by
    by_contra hle
    rw [headD_append_cons] at hrule
    rw [List.drop_append_of_le_length (Nat.le_of_not_lt hle), headD_append_cons] at hgoto
    have hsome := reduceAbove?_eq_some_iff.mpr
      ⟨rule, production, next, hrule, hproduction, Nat.le_of_not_lt hle, hgoto, rfl⟩
    simp [h] at hsome
  obtain ⟨removed, hremoved⟩ := Nat.exists_eq_add_of_lt hlt
  rw [List.drop_append, List.drop_of_length_le hlt.le, hremoved]
  simp [Nat.add_assoc]

-- The reductions of a stack of states above a base state end after `count` of them.
inductive Settles (tables : Tables) (base : Nat) : List Nat → Nat → List Nat → Prop
  | done {states : List Nat} : tables.reduceAbove? base states = none →
      Settles tables base states 0 states
  | step {states after final : List Nat} {count : Nat} :
      tables.reduceAbove? base states = some after → Settles tables base after count final →
      Settles tables base states (count + 1) final

theorem Settles.unique (h : tables.Settles base states count final)
    (h' : tables.Settles base states count' final') : count = count' := by
  induction h generalizing count' with
  | done hnone =>
      cases h' with
      | done => rfl
      | step hsome => simp [hnone] at hsome
  | step hsome _ ih =>
      cases h' with
      | done hnone => simp [hsome] at hnone
      | step hsome' hrest =>
          obtain rfl := Option.some.inj (hsome.symm.trans hsome')
          rw [ih hrest]

-- A stack settles state by state: first what comes above its top, and then, unless the whole stack is
-- settled with that, what is left below.
theorem Settles.split (above : List Nat)
    (h : tables.Settles base (above ++ state :: rest) count final) :
    ∃ stay above', tables.Settles state above stay above' ∧
      (stay = count ∧ final = above' ++ state :: rest ∨
        ∃ name below next removed count', tables.goto? below name = some next ∧
          stay + count' + 1 = count ∧ tables.Settles base (next :: rest.drop removed) count' final) := by
  generalize hstates : above ++ state :: rest = states at h
  induction h generalizing above with
  | done hnone =>
      subst hstates
      refine ⟨0, above, .done ?_, .inl ⟨rfl, rfl⟩⟩
      by_contra hsome
      obtain ⟨after, hsome⟩ := Option.ne_none_iff_exists'.mp hsome
      simp [reduceAbove?_append hsome] at hnone
  | @step states after final count hsome hrest ih =>
      subst hstates
      cases habove : tables.reduceAbove? state above with
      | none =>
          obtain ⟨name, below, next, removed, hgoto, rfl⟩ :=
            exists_of_reduceAbove?_append habove hsome
          exact ⟨0, above, .done habove,
            .inr ⟨name, below, next, removed, count, hgoto, by omega, hrest⟩⟩
      | some above' =>
          obtain rfl := Option.some.inj (hsome.symm.trans (reduceAbove?_append habove base rest))
          obtain ⟨stay, above'', hstay, hend⟩ := ih _ rfl
          refine ⟨stay + 1, above'', .step habove hstay, ?_⟩
          rcases hend with ⟨rfl, rfl⟩ | ⟨name, below, next, removed, count', hgoto, hcount, hnext⟩
          · exact .inl ⟨rfl, rfl⟩
          · exact .inr ⟨name, below, next, removed, count', hgoto, by omega, hnext⟩

section Bounds

open scoped Classical

variable (nodes : Finset Nat)

-- The states that settle in fewer reductions with nothing above them.
noncomputable def quicker (tables : Tables) (count : Nat) : Finset Nat :=
  nodes.filter fun state => ∃ less < count, ∃ final, tables.Settles state [] less final

-- The states that settle in as many reductions or fewer on top of a stack.
noncomputable def onTop (tables : Tables) (base : Nat) (rest : List Nat) (count : Nat) : Finset Nat :=
  nodes.filter fun state => ∃ less ≤ count, ∃ final, tables.Settles base (state :: rest) less final

variable {nodes}

theorem card_quicker_lt (hstate : state ∈ nodes) (h : tables.Settles state [] count' final)
    (hlt : count' < count) :
    (quicker nodes tables count').card < (quicker nodes tables count).card := by
  refine Finset.card_lt_card (Finset.ssubset_iff_of_subset ?_ |>.mpr ⟨state, ?_, ?_⟩)
  · intro other hother
    obtain ⟨hnodes, less, hless, hsettles⟩ := Finset.mem_filter.mp hother
    exact Finset.mem_filter.mpr ⟨hnodes, less, hless.trans hlt, hsettles⟩
  · exact Finset.mem_filter.mpr ⟨hstate, count', hlt, final, h⟩
  · intro hmem
    obtain ⟨_, less, hless, _, hsettles⟩ := Finset.mem_filter.mp hmem
    exact absurd (h.unique hsettles) hless.ne'

theorem card_onTop_lt (hstate : state ∈ nodes) (h : tables.Settles base (state :: rest) count final)
    (hlt : count' < count) :
    (onTop nodes tables base rest count').card < (onTop nodes tables base rest count).card := by
  refine Finset.card_lt_card (Finset.ssubset_iff_of_subset ?_ |>.mpr ⟨state, ?_, ?_⟩)
  · intro other hother
    obtain ⟨hnodes, less, hless, hsettles⟩ := Finset.mem_filter.mp hother
    exact Finset.mem_filter.mpr ⟨hnodes, less, hless.trans hlt.le, hsettles⟩
  · exact Finset.mem_filter.mpr ⟨hstate, count, le_rfl, final, h⟩
  · intro hmem
    obtain ⟨_, less, hless, _, hsettles⟩ := Finset.mem_filter.mp hmem
    have := h.unique hsettles
    omega

theorem card_onTop_pos (hstate : state ∈ nodes)
    (h : tables.Settles base (state :: rest) count final) :
    0 < (onTop nodes tables base rest count).card :=
  Finset.card_pos.mpr ⟨state, Finset.mem_filter.mpr ⟨hstate, count, le_rfl, final, h⟩⟩

theorem card_onTop_le : (onTop nodes tables base rest count).card ≤ nodes.card :=
  Finset.card_filter_le ..

variable (hgotos : ∀ below name next, tables.goto? below name = some next → next ∈ nodes)

include hgotos

-- With bounds for what comes above one state: no state stands twice on top of the same stack, as the
-- reductions from there would be the same ones again, and below the stack only gets lower.
theorem settles_cons_le {stay height : Nat}
    (hstay : ∀ state ∈ nodes, ∀ less ≤ count, ∀ final, tables.Settles state [] less final →
      less + 1 ≤ stay ∧ final.length ≤ height)
    (hstate : state ∈ nodes) (h : tables.Settles base (state :: rest) count final) :
    count + 1 ≤ stay * (onTop nodes tables base rest count).card + stay * nodes.card * rest.length ∧
      final.length ≤ rest.length + 1 + height := by
  induction count using Nat.strong_induction_on generalizing state rest with
  | _ count ih =>
  have hpos := card_onTop_pos hstate h
  obtain ⟨less, above, habove, hend⟩ := Settles.split [] h
  rcases hend with ⟨rfl, rfl⟩ | ⟨name, below, next, removed, count', hgoto, hcount, hnext⟩
  · obtain ⟨hless, hheight⟩ := hstay state hstate less le_rfl above habove
    refine ⟨?_, by simp; omega⟩
    calc less + 1 ≤ stay := hless
      _ ≤ stay * (onTop nodes tables base rest less).card := Nat.le_mul_of_pos_right _ hpos
      _ ≤ _ := Nat.le_add_right ..
  · obtain ⟨hless, _⟩ := hstay state hstate less (by omega) above habove
    obtain ⟨hcount', hheight⟩ := ih count' (by omega)
      (fun state hstate less hle => hstay state hstate less (by omega)) (hgotos _ _ _ hgoto) hnext
    have hdrop : (rest.drop removed).length ≤ rest.length := by simp
    refine ⟨?_, by omega⟩
    by_cases hrest : rest.drop removed = rest
    · rw [hrest] at hcount'
      have hlt : (onTop nodes tables base rest count').card < (onTop nodes tables base rest count).card :=
        card_onTop_lt hstate h (by omega)
      nlinarith
    · have hlt : (rest.drop removed).length + 1 ≤ rest.length := by
        refine Nat.lt_of_le_of_ne hdrop fun hlength => hrest ?_
        exact (List.drop_sublist removed rest).eq_of_length hlength
      have hle : stay * (onTop nodes tables base (rest.drop removed) count').card ≤ stay * nodes.card :=
        Nat.mul_le_mul_left stay card_onTop_le
      have hmul := Nat.mul_le_mul_left (stay * nodes.card) hlt
      have hone := Nat.le_mul_of_pos_right stay hpos
      rw [Nat.mul_succ] at hmul
      omega

-- What comes above one state: the states it meets there settle more quickly, so the levels and the
-- reductions are bounded by how many states do.
theorem settles_nil_le (h : tables.Settles state [] count final) :
    count + 1 ≤ (nodes.card + 1) ^ (quicker nodes tables count).card ∧
      final.length ≤ (quicker nodes tables count).card := by
  induction count using Nat.strong_induction_on generalizing state final with
  | _ count ih =>
  cases h with
  | done => simp [Nat.one_le_pow]
  | @step _ after _ count hsome hrest =>
      obtain ⟨rule, production, next, _, _, _, hgoto, rfl⟩ := reduceAbove?_eq_some_iff.mp hsome
      have hnext := hgotos _ _ _ hgoto
      rw [List.drop_nil] at hrest
      obtain ⟨less, above, habove, hend⟩ := Settles.split [] hrest
      have hless : less < count + 1 := by
        rcases hend with ⟨rfl, _⟩ | ⟨_, _, _, _, _, _, hcount, _⟩ <;> omega
      obtain ⟨rank, hrank⟩ : ∃ rank, (quicker nodes tables (count + 1)).card = rank + 1 :=
        Nat.exists_eq_succ_of_ne_zero (Nat.ne_of_gt (Nat.zero_lt_of_lt
          (card_quicker_lt hnext habove hless)))
      have hstay : ∀ state ∈ nodes, ∀ less ≤ count, ∀ final, tables.Settles state [] less final →
          less + 1 ≤ (nodes.card + 1) ^ rank ∧ final.length ≤ rank := by
        intro state hstate less hle final hsettles
        have hlt := card_quicker_lt hstate hsettles (Nat.lt_add_one_of_le hle)
        obtain ⟨hcount, hheight⟩ := ih less (Nat.lt_add_one_of_le hle) hsettles
        refine ⟨hcount.trans (Nat.pow_le_pow_right (Nat.succ_pos _) (by omega)), by omega⟩
      obtain ⟨hcount, hheight⟩ := settles_cons_le hgotos hstay hnext hrest
      rw [hrank]
      refine ⟨?_, by simpa [Nat.add_comm] using hheight⟩
      have hpow : 1 ≤ (nodes.card + 1) ^ rank := Nat.one_le_pow _ _ (Nat.succ_pos _)
      calc count + 1 + 1
          ≤ (nodes.card + 1) ^ rank * nodes.card + 1 := by
            have hle : (nodes.card + 1) ^ rank * (onTop nodes tables state [] count).card ≤
                (nodes.card + 1) ^ rank * nodes.card := Nat.mul_le_mul_left _ card_onTop_le
            simp only [List.length_nil, Nat.mul_zero, Nat.add_zero] at hcount
            omega
        _ ≤ (nodes.card + 1) ^ rank * nodes.card + (nodes.card + 1) ^ rank := by omega
        _ = (nodes.card + 1) ^ (rank + 1) := by rw [Nat.pow_succ, Nat.mul_succ]

-- How long a stack takes to settle, and how high it gets.
theorem settles_le (hzero : 0 < nodes.card) (hhead : ∀ state ∈ states.head?, state ∈ nodes)
    (h : tables.Settles base states count final) :
    count + 1 ≤ (nodes.card + 1) ^ nodes.card * nodes.card * (states.length + 1) ∧
      final.length ≤ states.length + nodes.card := by
  have hstay (state less : Nat) (final : List Nat) (hsettles : tables.Settles state [] less final) :
      less + 1 ≤ (nodes.card + 1) ^ nodes.card ∧ final.length ≤ nodes.card := by
    obtain ⟨hless, hheight⟩ := settles_nil_le hgotos hsettles
    have hcard : (quicker nodes tables less).card ≤ nodes.card := Finset.card_filter_le ..
    exact ⟨hless.trans (Nat.pow_le_pow_right (Nat.succ_pos _) hcard), hheight.trans hcard⟩
  cases states with
  | nil =>
      obtain ⟨hcount, hheight⟩ := hstay base count final h
      refine ⟨hcount.trans ?_, by simpa using hheight⟩
      rw [List.length_nil, Nat.zero_add, Nat.mul_one]
      exact Nat.le_mul_of_pos_right _ hzero
  | cons state rest =>
      obtain ⟨hcount, hheight⟩ := settles_cons_le hgotos
        (fun state _ less _ => hstay state less) (hhead state (by simp)) h
      have hle : (nodes.card + 1) ^ nodes.card * (onTop nodes tables base rest count).card ≤
          (nodes.card + 1) ^ nodes.card * nodes.card := Nat.mul_le_mul_left _ card_onTop_le
      refine ⟨?_, by simp; omega⟩
      calc count + 1
          ≤ (nodes.card + 1) ^ nodes.card * nodes.card +
              (nodes.card + 1) ^ nodes.card * nodes.card * rest.length := by omega
        _ ≤ _ := by rw [List.length_cons]; nlinarith

end Bounds

variable {stack : List (Nat × ParseTree)} {position : Position}
  {input : List (Except LexicalError (Token String))} {result : Except ParseError ParseTree}

-- Before a token is read, or the run ends there, the stack settles.
theorem exists_settles_of_run {fuel : Nat} {token : Token String}
    (h : tables.run fuel ⟨stack, position, .ok token :: input⟩ = some result) :
    ∃ count stack' position' fuel',
      tables.Settles 0 (stack.map (·.1)) count (stack'.map (·.1)) ∧
        tables.reduceAbove? 0 (stack'.map (·.1)) = none ∧
          tables.run (fuel' + 1) ⟨stack', position', .ok token :: input⟩ = some result ∧
            ∀ more, tables.run more ⟨stack', position', .ok token :: input⟩ = some result →
              tables.run (more + count) ⟨stack, position, .ok token :: input⟩ = some result := by
  induction fuel generalizing stack position with
  | zero => simp [run] at h
  | succ fuel ih =>
      cases hreduce : tables.reduceAbove? 0 (stack.map (·.1)) with
      | none => exact ⟨0, stack, position, fuel, .done hreduce, hreduce, h, fun _ => id⟩
      | some after =>
          obtain ⟨middle, hreduces, rfl⟩ := exists_reduces hreduce
          have hsteps : tables.Steps ⟨stack, position, .ok token :: input⟩
              ⟨middle, token.position, .ok token :: input⟩ := .reduce hreduces
          rw [run_succ_of_steps hsteps] at h
          obtain ⟨count, stack', position', fuel', hsettles, hnone, hrun, hmore⟩ := ih h
          refine ⟨count + 1, stack', position', fuel', .step hreduce hsettles, hnone, hrun, ?_⟩
          intro more hrun
          rw [← Nat.add_assoc, run_succ_of_steps hsteps]
          exact hmore more hrun

theorem run_one_of_done {fuel : Nat} {parsing : Parsing} {other : Except ParseError ParseTree}
    (hdone : tables.step parsing = .done other) (h : tables.run fuel parsing = some result) :
    tables.run 1 parsing = some result := by
  cases fuel with
  | zero => simp [run] at h
  | succ fuel => simpa [run, hdone] using h

def settleBound (states : Nat) : Nat := (states + 1) ^ states * states

-- The steps for some tokens from a stack of some height, each token with a settling before it.
def stepsFor (states tokens height : Nat) : Nat :=
  (tokens + 1) * (settleBound states * (height + tokens * (states + 1) + 1))

theorem one_le_stepsFor {states : Nat} (hpos : 0 < states) (tokens height : Nat) :
    1 ≤ stepsFor states tokens height :=
  Nat.mul_pos (Nat.succ_pos _)
    (Nat.mul_pos (Nat.mul_pos (Nat.pow_pos (Nat.succ_pos _)) hpos) (Nat.succ_pos _))

theorem settleBound_add_stepsFor_le (states tokens height : Nat) :
    settleBound states * (height + 1) + stepsFor states tokens (height + states + 1) ≤
      stepsFor states (tokens + 1) height := by
  have hheight : height + states + 1 + tokens * (states + 1) + 1 =
      height + (tokens + 1) * (states + 1) + 1 := by ring
  have hle : settleBound states * (height + 1) ≤
      settleBound states * (height + (tokens + 1) * (states + 1) + 1) :=
    Nat.mul_le_mul_left _ (by omega)
  rw [stepsFor, stepsFor, hheight, Nat.succ_mul (tokens + 1), Nat.add_comm]
  exact Nat.add_le_add_left hle _

theorem stepsFor_le_stepBound (tables : Tables) (tokens : Nat) :
    stepsFor tables.states.length tokens 0 ≤ tables.stepBound tokens := by
  generalize hstates : tables.states.length = states
  have hpow : (states + 1) ^ states ≤ (states + 2) ^ states := Nat.pow_le_pow_left (by omega) _
  have hsettle : settleBound states ≤ (states + 2) ^ states * (states + 2) :=
    Nat.mul_le_mul hpow (by omega)
  have hheight : 0 + tokens * (states + 1) + 1 ≤ (tokens + 2) * (states + 2) := by nlinarith
  calc stepsFor states tokens 0
      ≤ (tokens + 2) * ((states + 2) ^ states * (states + 2) * ((tokens + 2) * (states + 2))) :=
        Nat.mul_le_mul (by omega) (Nat.mul_le_mul hsettle hheight)
    _ = (tokens + 2) * (tokens + 2) * (states + 2) ^ (states + 2) := by ring
    _ ≤ (tokens + 2) * (tokens + 2) * (states + 2) ^ (states + 3) :=
        Nat.mul_le_mul_left _ (Nat.pow_le_pow_right (by omega) (by omega))
    _ = tables.stepBound tokens := by rw [stepBound, hstates]; rfl

-- A run that ends does so within the settling of the stack before each token.
theorem exists_run_le {nodes : Finset Nat} {fuel : Nat} (hpos : 0 < nodes.card)
    (hgotos : ∀ below name next, tables.goto? below name = some next → next ∈ nodes)
    (hshifts : ∀ below name next, tables.action? below name = some (.shift next) → next ∈ nodes)
    (hhead : ∀ state ∈ (stack.map (·.1)).head?, state ∈ nodes)
    (h : tables.run fuel ⟨stack, position, input⟩ = some result) :
    ∃ fuel' ≤ stepsFor nodes.card input.length stack.length,
      tables.run fuel' ⟨stack, position, input⟩ = some result := by
  induction input generalizing stack position fuel with
  | nil => exact ⟨1, one_le_stepsFor hpos _ _, run_one_of_done rfl h⟩
  | cons head input ih =>
      cases head with
      | error error => exact ⟨1, one_le_stepsFor hpos _ _, run_one_of_done rfl h⟩
      | ok token =>
          obtain ⟨count, stack', position', fuel', hsettles, hnone, hrun, hmore⟩ :=
            exists_settles_of_run h
          obtain ⟨hcount, hheight⟩ := settles_le hgotos hpos hhead hsettles
          rw [List.length_map] at hcount hheight
          have hbound := settleBound_add_stepsFor_le nodes.card input.length stack.length
          have hpositive := one_le_stepsFor hpos input.length (stack.length + nodes.card + 1)
          rw [settleBound] at hbound
          cases hstep : tables.step ⟨stack', position', .ok token :: input⟩ with
          | done other =>
              refine ⟨1 + count, ?_, hmore 1 (run_one_of_done hstep hrun)⟩
              rw [List.length_cons]
              omega
          | next after =>
              obtain ⟨found, rest, hinput, ⟨next, haction, rfl⟩ | ⟨reduced, hreduces, rfl⟩⟩ :=
                steps_iff.mp hstep
              · obtain ⟨rfl, rfl⟩ := by simpa using hinput
                rw [run_succ_of_steps hstep] at hrun
                obtain ⟨more, hle, hrest⟩ :=
                  ih (by simpa using hshifts _ _ _ haction) hrun
                refine ⟨more + 1 + count, ?_, hmore _ ((run_succ_of_steps hstep more).trans hrest)⟩
                rw [List.length_map] at hheight
                have hmono : stepsFor nodes.card input.length (stack'.length + 1) ≤
                    stepsFor nodes.card input.length (stack.length + nodes.card + 1) :=
                  Nat.mul_le_mul_left _ (Nat.mul_le_mul_left _ (by omega))
                have hbelow := hle.trans hmono
                rw [List.length_cons]
                omega
              · simp [reduceAbove?_of_reduces hreduces] at hnone

-- The bound on the steps cuts no run short that would end.
theorem Built.parse_eq_of_reaches {grammar : Grammar} {start : String}
    (hbuilt : Built grammar start tables) {last : Parsing}
    (h : tables.Reaches ⟨[], .start, input⟩ last) (hdone : tables.step last = .done result) :
    tables.parse input = result := by
  obtain ⟨fuel, hrun⟩ := exists_run_of_reaches h hdone
  have hpos : 0 < (Finset.range tables.states.length).card := by
    rw [Finset.card_range]
    exact (List.getElem?_eq_some_iff.mp hbuilt.states_zero).1
  have hnode (state next : Nat) (symbol : Symbol) (henter : tables.enter? state symbol = some next) :
      next ∈ Finset.range tables.states.length :=
    Finset.mem_range.mpr (hbuilt.lt_of_enter? henter)
  obtain ⟨fuel', hle, hrun⟩ := exists_run_le hpos
    (fun below name next hgoto => hnode below next (.nonterminal name) hgoto)
    (fun below name next haction => hnode below next (.terminal name) (enter?_terminal_iff.mpr haction))
    (by simp) hrun
  rw [Finset.card_range] at hle
  rw [parse, run_of_le (hle.trans (stepsFor_le_stepBound tables input.length)) hrun, Option.getD_some]

theorem exists_reaches_of_parse_ne (h : tables.parse input = result) (hne : result ≠ .error .endless) :
    ∃ last, tables.Reaches ⟨[], .start, input⟩ last ∧ tables.step last = .done result := by
  unfold parse at h
  cases hrun : tables.run (tables.stepBound input.length) ⟨[], .start, input⟩ with
  | none => exact absurd (by simpa [hrun] using h.symm) hne
  | some found =>
      obtain rfl : found = result := by simpa [hrun] using h
      exact reaches_of_run hrun

theorem exists_reaches_of_parse {tree : ParseTree} (h : tables.parse input = .ok tree) :
    ∃ last, tables.Reaches ⟨[], .start, input⟩ last ∧ tables.step last = .done (.ok tree) :=
  exists_reaches_of_parse_ne h (by simp)

-- What is still to come is an end of the input.
theorem input_isSuffix_of_reaches {before after : Parsing} (h : tables.Reaches before after) :
    after.input <:+ before.input := by
  induction h with
  | refl => exact List.suffix_refl _
  | tail _ hstep ih =>
      obtain ⟨token, rest, hinput, ⟨next, _, rfl⟩ | ⟨stack, _, rfl⟩⟩ := steps_iff.mp hstep
      · exact (List.suffix_cons _ _).trans (hinput ▸ ih)
      · exact ih

theorem mem_of_parse_lexical {error : LexicalError} (h : tables.parse input = .error (.lexical error)) :
    .error error ∈ input := by
  obtain ⟨⟨stack, position, rest⟩, hreaches, hdone⟩ := exists_reaches_of_parse_ne h (by simp)
  have hsuffix := input_isSuffix_of_reaches hreaches
  unfold step at hdone
  rcases rest with _ | ⟨found | token, rest⟩
  · simp at hdone
  · obtain rfl : found = error := by simpa using hdone
    exact hsuffix.subset (by simp)
  · dsimp only at hdone
    split at hdone
    · simp at hdone
    · simp only [reduce, unexpected] at hdone
      split at hdone
      · simp at hdone
      · split at hdone
        · simp at hdone
        · split at hdone <;> simp at hdone
    · simp at hdone
    · simp [unexpected] at hdone

end Handheld.Tables
