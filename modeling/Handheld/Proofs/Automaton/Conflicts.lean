import Handheld.Proofs.Automaton.Canonical
import Handheld.Proofs.Automaton.Registration

namespace Handheld

namespace Grammar

-- The canonical collection: the closure of the first production from its beginning, and what its members
-- become by reading symbols. Nothing is read after the end marker.
inductive IsState (grammar : Grammar) (first : Production) : ItemSet → Prop
  | root {items : ItemSet} : grammar.IsClosure (· = .initial first) items → IsState grammar first items
  | read {items target : ItemSet} {symbol : Symbol} : IsState grammar first items →
      symbol ≠ .terminal endMarker → (∃ item ∈ items, item.next? = some symbol) →
      grammar.IsClosure (items.Advances symbol) target → IsState grammar first target

-- The same rules, but for alternatives that are listed more than once.
def EqUpToRepeats (grammar other : Grammar) : Prop :=
  ∀ lhs, (grammar.alternatives? lhs).map List.eraseDups = (other.alternatives? lhs).map List.eraseDups

variable {grammar other : Grammar} {start : String} {productions : List Production} {first : Production}
  {items items' : ItemSet} {kernel : Item → Prop}

theorem IsClosure.unique (h : grammar.IsClosure kernel items) (h' : grammar.IsClosure kernel items') :
    items = items' :=
  Std.ExtTreeSet.ext_mem fun item => (h item).trans (h' item).symm

theorem mem_states_iff_isState (hproductions : grammar.productions? start = .ok productions)
    (hfirst : productions.head? = some first) :
    items ∈ Automaton.states productions (Automaton.root productions) ↔ grammar.IsState first items := by
  have hroot : ∀ item ∈ Automaton.root productions, item.production ∈ productions :=
    Automaton.production_mem_of_mem_root
  constructor
  · intro h
    refine (Automaton.states_induction (P := fun items => grammar.IsState first items ∧
      ∀ item ∈ items, item.production ∈ productions) ?_ ?_ h).1
    · exact ⟨.root (isClosure_root hproductions hfirst), hroot⟩
    · rintro items symbol ⟨hstate, hitems⟩ hsymbol hmarker
      refine ⟨.read hstate ?_ (Automaton.mem_nextSymbols_iff.mp hsymbol)
        (isClosure_target hproductions hitems symbol), Automaton.production_mem_of_mem_target hitems⟩
      simpa [Symbol.isEndMarker] using hmarker
  · intro h
    induction h with
    | root hclosure => exact hclosure.unique (isClosure_root hproductions hfirst) ▸ Automaton.root_mem_states
    | @read items target symbol _ hmarker hsymbol hclosure ih =>
        have hitems := Automaton.production_mem_of_mem_states hroot ih
        rw [hclosure.unique (isClosure_target hproductions hitems symbol)]
        exact Automaton.target_mem_states hroot ih (Automaton.mem_nextSymbols_iff.mpr hsymbol)
          (by simpa [Symbol.isEndMarker] using hmarker)

namespace EqUpToRepeats

theorem symm (h : grammar.EqUpToRepeats other) : other.EqUpToRepeats grammar := fun lhs => (h lhs).symm

theorem alternatives? {lhs : String} {alternatives : List (List Symbol)} (h : grammar.EqUpToRepeats other)
    (hrule : grammar.alternatives? lhs = some alternatives) :
    ∃ others, other.alternatives? lhs = some others ∧ others.eraseDups = alternatives.eraseDups := by
  have hlhs := h lhs
  rw [hrule, Option.map_some, eq_comm, Option.map_eq_some_iff] at hlhs
  exact hlhs

theorem offers {lhs : String} {rhs : List Symbol} (h : grammar.EqUpToRepeats other)
    (hoffers : grammar.Offers lhs rhs) : other.Offers lhs rhs := by
  obtain ⟨alternatives, hrule, hrhs⟩ := hoffers
  obtain ⟨others, hothers, heq⟩ := h.alternatives? hrule
  refine ⟨others, hothers, ?_⟩
  rw [← List.mem_eraseDups, heq]
  exact List.mem_eraseDups.mpr hrhs

-- The first alternative stays the first.
theorem alternatives?_cons {lhs : String} {rhs : List Symbol} {more : List (List Symbol)}
    (h : grammar.EqUpToRepeats other) (hrule : grammar.alternatives? lhs = some (rhs :: more)) :
    ∃ more', other.alternatives? lhs = some (rhs :: more') := by
  obtain ⟨others, hothers, heq⟩ := h.alternatives? hrule
  cases others with
  | nil => simp [List.eraseDups_cons] at heq
  | cons rhs' more' =>
      rw [List.eraseDups_cons, List.eraseDups_cons] at heq
      obtain rfl := (List.cons.inj heq).1
      exact ⟨more', hothers⟩

theorem reachable {name : String} (h : grammar.EqUpToRepeats other)
    (hreach : grammar.Reachable start name) : other.Reachable start name := by
  induction hreach with
  | start => exact .start
  | mention _ hoffers hname ih => exact .mention ih (h.offers hoffers) hname

theorem inClosure {item : Item} (h : grammar.EqUpToRepeats other)
    (hclosure : grammar.InClosure kernel item) : other.InClosure kernel item := by
  induction hclosure with
  | kernel hitem => exact .kernel hitem
  | initial _ hnext hoffers ih => exact .initial ih hnext (h.offers hoffers)

theorem isClosure (h : grammar.EqUpToRepeats other) (hclosure : grammar.IsClosure kernel items) :
    other.IsClosure kernel items :=
  fun item => (hclosure item).trans ⟨h.inClosure, h.symm.inClosure⟩

theorem isState (h : grammar.EqUpToRepeats other) (hstate : grammar.IsState first items) :
    other.IsState first items := by
  induction hstate with
  | root hclosure => exact .root (h.isClosure hclosure)
  | read _ hmarker hsymbol hclosure ih => exact .read ih hmarker hsymbol (h.isClosure hclosure)

end EqUpToRepeats

end Grammar

namespace Tables

open Automaton

variable {grammar : Grammar} {start : String} {productions : List Production} {first : Production}
  {conflict : Conflict}

theorem build_eq_conflict_iff (hproductions : grammar.productions? start = .ok productions) :
    build grammar start = .error (.conflict conflict) ↔
      registerAll productions (Automaton.states productions (Automaton.root productions)) =
        .error conflict := by
  simp [build, registerAll, Automaton.root, hproductions, bind_eq_error_iff, mapError_eq_error_iff,
    mapError_eq_ok_iff, pure, Except.pure]

theorem build_ok_or_conflict (hproductions : grammar.productions? start = .ok productions) :
    (∃ tables, build grammar start = .ok tables) ∨
      ∃ conflict, build grammar start = .error (.conflict conflict) := by
  cases hbuild : build grammar start with
  | ok tables => exact .inl ⟨tables, rfl⟩
  | error error =>
      cases error with
      | numbering error =>
          simp [build, hproductions, bind_eq_error_iff, mapError_eq_error_iff, pure, Except.pure] at hbuild
      | conflict conflict => exact .inr ⟨conflict, rfl⟩

theorem exists_conflict_iff (hproductions : grammar.productions? start = .ok productions)
    (hfirst : productions.head? = some first) :
    (∃ conflict, build grammar start = .error (.conflict conflict)) ↔
      ∃ items, grammar.IsState first items ∧ items.IsConflicted := by
  simp only [build_eq_conflict_iff hproductions,
    exists_registerAll_eq_error_iff fun _ => production_mem_of_mem_states production_mem_of_mem_root,
    Grammar.mem_states_iff_isState hproductions hfirst]

theorem isFirstConflict_of_build (hproductions : grammar.productions? start = .ok productions)
    (hbuild : build grammar start = .error (.conflict conflict)) :
    IsFirstConflict (Automaton.states productions (Automaton.root productions)) conflict :=
  isFirstConflict_of_registerAll (fun _ => production_mem_of_mem_states production_mem_of_mem_root)
    ((build_eq_conflict_iff hproductions).mp hbuild)

-- A grammar of which every reachable nonterminal is defined has no tables just when some state of its
-- canonical collection is conflicted. The states are numbered in the order of their discovery, and the
-- error names the first one. Listing an alternative again makes no difference.
theorem build_conflict_iff {rhs : List Symbol} {more : List (List Symbol)}
    (hdefined : ∀ name, grammar.Reachable start name →
      ∃ alternatives, grammar.alternatives? name = some alternatives)
    (hstart : grammar.alternatives? start = some (rhs :: more)) :
    ((∃ conflict, build grammar start = .error (.conflict conflict)) ↔
      ∃ items, grammar.IsState ⟨start, rhs⟩ items ∧ items.IsConflicted) ∧
    ((∃ tables, build grammar start = .ok tables) ↔
      ∀ items, grammar.IsState ⟨start, rhs⟩ items → ¬ items.IsConflicted) ∧
    (∃ productions states, grammar.productions? start = .ok productions ∧
      states = Automaton.states productions (Automaton.root productions) ∧ states.Nodup ∧
      (∀ items, items ∈ states ↔ grammar.IsState ⟨start, rhs⟩ items) ∧
      ∀ conflict, build grammar start = .error (.conflict conflict) → IsFirstConflict states conflict) ∧
    (∀ state terminal, build grammar start ≠ .error (.conflict (.shiftShift state terminal)) ∧
      build grammar start ≠ .error (.conflict (.shiftAccept state terminal))) ∧
    ∀ other, grammar.EqUpToRepeats other →
      ((∃ conflict, build other start = .error (.conflict conflict)) ↔
        ∃ conflict, build grammar start = .error (.conflict conflict)) := by
  obtain ⟨productions, hproductions⟩ := Grammar.exists_productions? hdefined hstart
  have hfirst := Grammar.head?_productions hproductions hstart
  have hconflict := exists_conflict_iff hproductions hfirst
  have hnames (conflict : Conflict) (hbuild : build grammar start = .error (.conflict conflict)) :=
    isFirstConflict_of_build hproductions hbuild
  refine ⟨hconflict, ?built, ⟨productions, _, hproductions, rfl, nodup_states _ _,
    fun _ => Grammar.mem_states_iff_isState hproductions hfirst, hnames⟩, ?never, ?repeats⟩
  case built =>
    constructor
    · rintro ⟨tables, hbuild⟩ items hstate hitems
      obtain ⟨conflict, herror⟩ := hconflict.mpr ⟨items, hstate, hitems⟩
      simp [hbuild] at herror
    · intro hfree
      refine (build_ok_or_conflict hproductions).resolve_right fun herror => ?_
      obtain ⟨items, hstate, hitems⟩ := hconflict.mp herror
      exact hfree items hstate hitems
  case never =>
    intro state terminal
    constructor <;> intro hbuild <;> obtain ⟨_, _, _, _, hkind, _⟩ := hnames _ hbuild <;> cases hkind
  case repeats =>
    intro other hother
    obtain ⟨more', hstart'⟩ := hother.alternatives?_cons hstart
    have hdefined' (name : String) (hreach : other.Reachable start name) :
        ∃ alternatives, other.alternatives? name = some alternatives := by
      obtain ⟨alternatives, hrule⟩ := hdefined name (hother.symm.reachable hreach)
      obtain ⟨others, hothers, _⟩ := hother.alternatives? hrule
      exact ⟨others, hothers⟩
    obtain ⟨productions', hproductions'⟩ := Grammar.exists_productions? hdefined' hstart'
    rw [hconflict, exists_conflict_iff hproductions' (Grammar.head?_productions hproductions' hstart')]
    constructor
    · rintro ⟨items, hstate, hitems⟩
      exact ⟨items, hother.symm.isState hstate, hitems⟩
    · rintro ⟨items, hstate, hitems⟩
      exact ⟨items, hother.isState hstate, hitems⟩

-- A number may be a whole sum or be followed by more of it.
def rightSums : Grammar :=
  .ofRules [("start", [[.nonterminal "sum", .terminal endMarker]]),
    ("sum", [[.terminal "number"], [.terminal "number", .terminal "plus", .nonterminal "sum"]])]

theorem build_conflict_iff_rightSums :
    build rightSums "start" = .error (.conflict (.shiftReduce 2 "plus")) ∧
      ∃ items, rightSums.IsState ⟨"start", [.nonterminal "sum", .terminal endMarker]⟩ items ∧
        items.IsConflicted := by
  have hdefined (name : String) (hreach : rightSums.Reachable "start" name) :
      ∃ alternatives, rightSums.alternatives? name = some alternatives := by
    have hall : ∀ name ∈ rightSums.reachable "start", (rightSums.alternatives? name).isSome := by
      decide +kernel
    exact Option.isSome_iff_exists.mp (hall name (Grammar.mem_reachable_iff.mpr hreach))
  have hbuild : build rightSums "start" = .error (.conflict (.shiftReduce 2 "plus")) := by
    have herror : (match build rightSums "start" with
        | .ok _ => none
        | .error error => some error) = some (.conflict (.shiftReduce 2 "plus")) := by decide +kernel
    split at herror <;> simp_all
  exact ⟨hbuild, (build_conflict_iff hdefined rfl).1.mp ⟨_, hbuild⟩⟩

end Tables

end Handheld
