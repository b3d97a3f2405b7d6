import Handheld.Proofs.Automaton.Tables
import Handheld.Proofs.Data.MentionOrder
import Mathlib.Data.List.Find

namespace Handheld

namespace Grammar

variable {grammar other : Grammar} {start name : String}

theorem inMentionOrder_reachable (grammar : Grammar) (start : String) :
    InMentionOrder grammar.mentions start (grammar.reachable start) :=
  inMentionOrder_explore (start_mem_names grammar start) (mentions_mem_names grammar start)
    (card_names_le grammar start)

theorem nodup_reachable (grammar : Grammar) (start : String) : (grammar.reachable start).Nodup :=
  nodup_explore _ _ _ _ List.nodup_nil

-- Nothing but a nonterminal without alternatives is reachable from it.
theorem reachable_of_nil (h : grammar.alternatives? start = some []) :
    grammar.reachable start = [start] := by
  have hmentions : grammar.mentions start = [] := by simp [mentions, h]
  apply (inMentionOrder_reachable grammar start).unique
  intro count
  cases count with
  | zero => simp [firstNew]
  | succ count => simp [firstNew, hmentions]

theorem productions?_eq_unknownRule_iff : grammar.productions? start = .error (.unknownRule name) ↔
    grammar.firstUndefined? (grammar.reachable start) = some name := by
  rw [productions?_eq]
  cases grammar.firstUndefined? (grammar.reachable start) with
  | some first => simp
  | none =>
      dsimp only
      split <;> simp

theorem productions?_eq_noProductions_iff : grammar.productions? start = .error (.noProductions name) ↔
    name = start ∧ grammar.alternatives? start = some [] := by
  constructor
  · intro h
    rw [productions?_eq] at h
    split at h
    · simp at h
    · rename_i hdefined
      split at h
      · rename_i hempty
        obtain ⟨alternatives, hstart⟩ :=
          firstUndefined?_eq_none_iff.mp hdefined start (start_mem_reachable grammar start)
        have hblock : grammar.block start = [] :=
          List.flatMap_eq_nil_iff.mp hempty start (start_mem_reachable grammar start)
        obtain rfl : alternatives = [] := by simpa [block, hstart] using hblock
        obtain rfl : start = name := by simpa using h
        exact ⟨rfl, hstart⟩
      · simp at h
  · rintro ⟨rfl, hstart⟩
    rw [productions?_eq, reachable_of_nil hstart]
    simp [firstUndefined?, block, hstart]

-- Nothing depends on what is not reachable.
theorem productions?_congr (h : ∀ name, grammar.Reachable start name →
    other.alternatives? name = grammar.alternatives? name) :
    other.productions? start = grammar.productions? start := by
  have hsame : ∀ name ∈ grammar.reachable start, other.alternatives? name = grammar.alternatives? name :=
    fun name hname => h name (mem_reachable_iff.mp hname)
  have hreachable : other.reachable start = grammar.reachable start := by
    apply (inMentionOrder_reachable other start).unique
    apply (inMentionOrder_reachable grammar start).congr
    intro name hname
    rw [mentions, hsame name hname, mentions]
  have hfirst : other.firstUndefined? (grammar.reachable start) =
      grammar.firstUndefined? (grammar.reachable start) := by
    apply List.find?_congr
    intro name hname
    rw [hsame name hname]
  have hblocks : (grammar.reachable start).flatMap other.block =
      (grammar.reachable start).flatMap grammar.block := by
    apply List.flatMap_congr
    intro name hname
    rw [block, hsame name hname, block]
  rw [productions?_eq, productions?_eq, hreachable, hfirst, hblocks]

end Grammar

namespace Tables

variable {grammar : Grammar} {start : String} {tables : Tables}

theorem build_eq_numbering_iff {error : Grammar.NumberingError} :
    build grammar start = .error (.numbering error) ↔ grammar.productions? start = .error error := by
  unfold build
  constructor
  · intro h
    rcases bind_eq_error_iff.mp h with hproductions | ⟨productions, _, h⟩
    · obtain ⟨found, hfound, heq⟩ := mapError_eq_error_iff.mp hproductions
      rwa [← TablesError.numbering.inj heq]
    · rcases bind_eq_error_iff.mp h with hactions | ⟨_, _, h⟩
      · obtain ⟨_, _, heq⟩ := mapError_eq_error_iff.mp hactions
        simp at heq
      · simp [pure, Except.pure] at h
  · intro h
    rw [h]
    rfl

-- The productions are numbered along the nonterminals in some order, or the first of them without a rule is
-- reported.
structure NumberedAlong (grammar : Grammar) (start : String) (order : List String) : Prop where
  mentionOrder : InMentionOrder grammar.mentions start order
  nodup : order.Nodup
  mem_iff (name : String) : name ∈ order ↔ grammar.Reachable start name
  numbered {rhs : List Symbol} {alternatives : List (List Symbol)} :
    (∀ name, grammar.Reachable start name →
      ∃ alternatives, grammar.alternatives? name = some alternatives) →
    grammar.alternatives? start = some (rhs :: alternatives) →
    ∃ rules, grammar.productions? start = .ok (⟨start, rhs⟩ :: rules) ∧
      ⟨start, rhs⟩ :: rules = order.flatMap grammar.block
  productions_eq {tables : Tables} : build grammar start = .ok tables →
    tables.productions = order.flatMap grammar.block
  unknownRule_iff (name : String) : build grammar start = .error (.numbering (.unknownRule name)) ↔
    grammar.firstUndefined? order = some name
  exists_unknownRule_iff : (∃ name, build grammar start = .error (.numbering (.unknownRule name))) ↔
    ∃ name, grammar.Reachable start name ∧ grammar.alternatives? name = none
  noProductions_iff (name : String) : build grammar start = .error (.numbering (.noProductions name)) ↔
    name = start ∧ grammar.alternatives? start = some []

theorem exists_numbered {rhs : List Symbol} {alternatives : List (List Symbol)}
    (hdefined : ∀ name, grammar.Reachable start name →
      ∃ alternatives, grammar.alternatives? name = some alternatives)
    (hstart : grammar.alternatives? start = some (rhs :: alternatives)) :
    ∃ rules, grammar.productions? start = .ok (⟨start, rhs⟩ :: rules) ∧
      ⟨start, rhs⟩ :: rules = (grammar.reachable start).flatMap grammar.block := by
  obtain ⟨productions, hproductions⟩ := Grammar.exists_productions? hdefined hstart
  have hhead := Grammar.head?_productions hproductions hstart
  obtain ⟨rules, rfl⟩ := List.head?_eq_some_iff.mp hhead
  exact ⟨rules, hproductions, (Grammar.productions?_eq_ok_iff.mp hproductions).2.2⟩

theorem numberedAlong_reachable (grammar : Grammar) (start : String) :
    NumberedAlong grammar start (grammar.reachable start) := by
  have hunknown (name : String) : build grammar start = .error (.numbering (.unknownRule name)) ↔
      grammar.firstUndefined? (grammar.reachable start) = some name := by
    rw [build_eq_numbering_iff, Grammar.productions?_eq_unknownRule_iff]
  constructor
  case mentionOrder => exact Grammar.inMentionOrder_reachable grammar start
  case nodup => exact Grammar.nodup_reachable grammar start
  case mem_iff => exact fun name => Grammar.mem_reachable_iff
  case numbered => exact exists_numbered
  case productions_eq => exact fun h =>
    (Grammar.productions?_eq_ok_iff.mp (built_of_build h).productions_eq).2.2
  case unknownRule_iff => exact hunknown
  case exists_unknownRule_iff =>
    simp only [hunknown, ← Option.isSome_iff_exists, Grammar.firstUndefined?, List.find?_isSome,
      Grammar.mem_reachable_iff, decide_eq_true_eq]
  case noProductions_iff =>
    intro name
    rw [build_eq_numbering_iff, Grammar.productions?_eq_noProductions_iff]

-- Productions are numbered block by block along what is reachable, in the order of first mention. A rule
-- that is missing there is reported, the first one in this order, and so is a start without alternatives. What
-- is not reachable makes no difference to the tables or to the error.
theorem build_numbers (grammar : Grammar) (start : String) :
    (∃ order, NumberedAlong grammar start order) ∧
      ∀ other : Grammar, (∀ name, grammar.Reachable start name →
        other.alternatives? name = grammar.alternatives? name) →
          build other start = build grammar start := by
  refine ⟨⟨_, numberedAlong_reachable grammar start⟩, fun other hsame => ?_⟩
  rw [build, Grammar.productions?_congr hsame, build]

-- Lists of words and lists, with a rule that is never used.
def lists : Grammar :=
  .ofRules [("unused", [[.nonterminal "nowhere"]]),
    ("start", [[.nonterminal "list", .terminal endMarker]]),
    ("list", [[.nonterminal "item", .nonterminal "list"], [.terminal "end"]]),
    ("item", [[.terminal "word"], [.terminal "open", .nonterminal "list"]])]

theorem build_numbers_lists :
    lists.productions? "start" = .ok [⟨"start", [.nonterminal "list", .terminal endMarker]⟩,
      ⟨"list", [.nonterminal "item", .nonterminal "list"]⟩, ⟨"list", [.terminal "end"]⟩,
      ⟨"item", [.terminal "word"]⟩, ⟨"item", [.terminal "open", .nonterminal "list"]⟩] ∧
    build (lists.add "unused" []) "start" = build lists "start" := by
  have hreachable : lists.reachable "start" = ["start", "list", "item"] := by decide +kernel
  have hdefined (name : String) (hname : lists.Reachable "start" name) :
      ∃ alternatives, lists.alternatives? name = some alternatives := by
    have hall : ∀ name ∈ lists.reachable "start", (lists.alternatives? name).isSome := by
      rw [hreachable]
      decide +kernel
    exact Option.isSome_iff_exists.mp (hall name (Grammar.mem_reachable_iff.mpr hname))
  have hunused (name : String) (hname : lists.Reachable "start" name) :
      (lists.add "unused" []).alternatives? name = lists.alternatives? name := by
    have hne : "unused" ≠ name := by
      rintro rfl
      have hmem := Grammar.mem_reachable_iff.mpr hname
      rw [hreachable] at hmem
      simp at hmem
    rw [Grammar.alternatives?, Grammar.add, Dict.get?_insert, if_neg hne, Grammar.alternatives?]
  obtain ⟨⟨order, hnumbered⟩, hcongr⟩ := build_numbers lists "start"
  refine ⟨?_, hcongr _ hunused⟩
  have horder : order = ["start", "list", "item"] := by
    rw [← hreachable]
    exact hnumbered.mentionOrder.unique (Grammar.inMentionOrder_reachable lists "start")
  obtain ⟨rules, hrules, hblocks⟩ := hnumbered.numbered hdefined (by rfl)
  rw [hrules, hblocks, horder]
  decide +kernel

end Tables

end Handheld
