import Handheld.Proofs.Grammar.Sentence
import Handheld.Proofs.ShiftReduce.Language

namespace Handheld

namespace Tables

open Automaton Grammar

variable {grammar : Grammar} {start : String} {tables : Tables} {body : List Symbol}
  {tokens : List (Token String)} {stack : List (Nat × ParseTree)} {item : Item}

namespace Built

variable (hbuilt : Built grammar start tables) (hproductive : grammar.AllProductive start)

include hbuilt hproductive

theorem exists_derives_drop {state : Nat} (hitem : tables.HasItem state item) (count : Nat) :
    ∃ kinds, grammar.Derives (item.production.rhs.drop count) (terminals kinds) := by
  obtain ⟨hreach, hoffers⟩ := hbuilt.mem_productions_iff.mp (hbuilt.production_mem hitem)
  exact productive_symbols fun name hname =>
    hproductive name (.mention hreach hoffers (List.mem_of_mem_drop hname))

-- Rewriting the nonterminal after the cursor of an item, and the symbols behind it to terminals.
theorem exists_derives_initial {state : Nat} {production : Production} {all before : List Symbol}
    (hitem : tables.HasItem state item) (hnext : item.next? = some (.nonterminal production.lhs))
    (hmem : production ∈ tables.productions)
    (h : ∃ more, grammar.Derives all
      (before ++ item.production.rhs.drop item.cursor ++ terminals more)) :
    ∃ more, grammar.Derives all (before ++ production.rhs ++ terminals more) := by
  obtain ⟨more, hmore⟩ := h
  obtain ⟨kinds, hkinds⟩ := hbuilt.exists_derives_drop hproductive hitem item.advanced.cursor
  refine ⟨kinds ++ more, hmore.trans ?_⟩
  rw [Item.drop_cursor hnext]
  have hoffers := (hbuilt.mem_productions_iff.mp hmem).2
  have hrewrite := (((derives_of_offers hoffers).append hkinds).append_left before).append_right
    (terminals more)
  simpa [terminals] using hrewrite

variable (hterm : grammar.Terminated start body)

include hterm

-- Every item of the latest state can be read on to the end of some sentence.
theorem exists_derives_of_hasItem (hpath : tables.Path stack)
    (hitem : tables.HasItem (topState stack) item) :
    ∃ more, grammar.Derives (body ++ [.terminal endMarker])
      (spelled stack ++ item.production.rhs.drop item.cursor ++ terminals more) := by
  induction hpath generalizing item with
  | nil =>
      refine hbuilt.hasItem_zero_induction
        (P := fun item => ∃ more, grammar.Derives (body ++ [.terminal endMarker])
          (spelled [] ++ item.production.rhs.drop item.cursor ++ terminals more))
        (hbuilt.head?_productions hterm) ⟨[], by simpa [spelled, terminals] using .refl⟩ ?_ hitem
      intro item production hhas ih hnext hmem
      exact hbuilt.exists_derives_initial hproductive hhas hnext hmem ih
  | @cons state tree stack _ henter ih =>
      refine hbuilt.hasItem_induction
        (P := fun item => ∃ more, grammar.Derives (body ++ [.terminal endMarker])
          (spelled ((state, tree) :: stack) ++ item.production.rhs.drop item.cursor ++ terminals more))
        henter ?_ ?_ hitem
      · intro before hbefore hnext
        obtain ⟨more, hmore⟩ := ih hbefore
        rw [Item.drop_cursor hnext] at hmore
        exact ⟨more, by simpa using hmore⟩
      · intro item production hhas ih hnext hmem
        exact hbuilt.exists_derives_initial hproductive hhas hnext hmem ih

-- A token that an item of the latest state waits for goes on in some sentence.
theorem viable_of_next? {kind : String} (hread : HasRead grammar tables tokens stack)
    (hitem : tables.HasItem (topState stack) item) (hnext : item.next? = some (.terminal kind)) :
    grammar.Viable body (kinds tokens ++ [kind]) := by
  obtain ⟨more, hmore⟩ := hbuilt.exists_derives_of_hasItem hproductive hterm hread.path hitem
  obtain ⟨after, hafter⟩ := hbuilt.exists_derives_drop hproductive hitem item.advanced.cursor
  have hbefore : grammar.Derives (spelled stack) (terminals (kinds tokens)) :=
    derives_iff_exists_forest.mpr ⟨_, hread.forest⟩
  rw [Item.drop_cursor hnext] at hmore
  have hall : grammar.Derives (body ++ [.terminal endMarker])
      (terminals (kinds tokens ++ kind :: (after ++ more))) := by
    refine hmore.trans ?_
    have hrest := (hbefore.append (hafter.append_left [.terminal kind])).append_right (terminals more)
    simpa [terminals] using hrest
  obtain ⟨sentence, hsentence, heq⟩ := Terminated.exists_sentence_of_derives hall
  exact ⟨sentence, hsentence, after ++ more, by rw [← heq]; simp⟩

theorem viable_of_action? {token : Token String} {action : Action}
    (hread : HasRead grammar tables tokens stack)
    (haction : tables.action? (topState stack) token.kind = some action)
    (hreduce : tables.actions.reduce? (topState stack) = none) :
    grammar.Viable body (kinds (tokens ++ [token])) := by
  have hkinds : kinds (tokens ++ [token]) = kinds tokens ++ [token.kind] := by simp [kinds]
  rw [hkinds]
  cases action with
  | shift next =>
      obtain ⟨_, item, hitem, hnext⟩ :=
        hbuilt.exists_enter?_iff.mp ⟨next, enter?_terminal_iff.mpr haction⟩
      exact hbuilt.viable_of_next? hproductive hterm hread hitem hnext
  | reduce rule =>
      rw [action?, ActionTable.action?_eq_reduce_iff] at haction
      simp [hreduce] at haction
  | accept =>
      obtain ⟨hkind, item, hitem, hnext⟩ := hbuilt.action?_eq_accept_iff.mp haction
      exact hbuilt.viable_of_next? hproductive hterm hread hitem (hkind ▸ hnext)

end Built

-- On its way to accept, a parser first reduces as far as it can.
theorem exists_settled_of_reaches {position : Text.Position} {token : Token String}
    {rest : List (Except LexicalError (Token String))} {last : Parsing} {tree : ParseTree}
    (h : tables.Reaches ⟨stack, position, .ok token :: rest⟩ last)
    (hdone : tables.step last = .done (.ok tree)) :
    ∃ settled, Relation.ReflTransGen tables.Reduces stack settled ∧
      tables.actions.reduce? (topState settled) = none := by
  have hnone {state : Nat} {action : Action} (haction : tables.action? state token.kind = some action)
      (hne : ∀ rule, action ≠ .reduce rule) : tables.actions.reduce? state = none := by
    by_contra hsome
    obtain ⟨rule, hrule⟩ := Option.ne_none_iff_exists'.mp hsome
    rw [action?, ActionTable.action?_eq_reduce_iff.mpr hrule] at haction
    exact hne rule (Option.some.inj haction).symm
  generalize hbefore : (⟨stack, position, .ok token :: rest⟩ : Parsing) = before at h
  induction h using Relation.ReflTransGen.head_induction_on generalizing stack position with
  | refl =>
      obtain rfl := hbefore
      obtain ⟨found, _, hinput, haction, _⟩ := step_eq_ok_iff.mp hdone
      obtain ⟨rfl, _⟩ := by simpa using hinput
      exact ⟨stack, .refl, hnone haction (by simp)⟩
  | head hstep _ ih =>
      obtain rfl := hbefore
      obtain ⟨found, _, hinput, ⟨next, haction, rfl⟩ | ⟨reduced, hreduces, rfl⟩⟩ := steps_iff.mp hstep
      · obtain ⟨rfl, _⟩ := by simpa using hinput
        exact ⟨stack, .refl, hnone haction (by simp)⟩
      · obtain ⟨settled, hsettled, hreduce⟩ := ih rfl
        exact ⟨settled, hsettled.head hreduces, hreduce⟩

theorem reaches_of_reduces {position : Text.Position} {token : Token String}
    {rest : List (Except LexicalError (Token String))} {stack' : List (Nat × ParseTree)}
    (h : Relation.ReflTransGen tables.Reduces stack stack') :
    ∃ position', tables.Reaches ⟨stack, position, .ok token :: rest⟩
      ⟨stack', position', .ok token :: rest⟩ := by
  induction h with
  | refl => exact ⟨position, .refl⟩
  | tail _ hreduces ih =>
      obtain ⟨position', hreaches⟩ := ih
      exact ⟨token.position, hreaches.tail (.reduce hreduces)⟩

namespace Built

variable (hbuilt : Built grammar start tables) (hterm : grammar.Terminated start body)

include hbuilt hterm

-- The tokens of a viable prefix are read, and the parser could go on from there and accept.
theorem reaches_of_viable (hviable : grammar.Viable body (kinds tokens))
    (hmarker : ∀ token ∈ tokens, token.kind ≠ endMarker) :
    ∃ stack position, tables.Reaches ⟨[], .start, tokens.map .ok⟩ ⟨stack, position, []⟩ ∧
      ∃ settled, Relation.ReflTransGen tables.Reduces stack settled ∧
        tables.actions.reduce? (topState settled) = none := by
  obtain ⟨sentence, hsentence, hprefix⟩ := hviable
  have hnot : endMarker ∉ kinds tokens := by
    rintro hmem
    obtain ⟨token, htoken, hkind⟩ := List.mem_map.mp hmem
    exact hmarker token htoken hkind
  obtain ⟨after, rfl⟩ : kinds tokens <+: sentence := by
    rcases List.prefix_concat_iff.mp hprefix with heq | hprefix
    · exact absurd (by simp [heq]) hnot
    · exact hprefix
  let others : List (Token String) := after.map (⟨·, "", .start⟩)
  have hkinds : kinds (tokens ++ others) = kinds tokens ++ after := by
    simp [kinds, others, Function.comp_def]
  have hsentence_marker := hterm.marker_notMem_sentence hsentence
  rw [← hkinds] at hsentence hsentence_marker
  obtain ⟨trees, hforest⟩ := exists_forest_of_derives hsentence
  let last : Token String := ⟨endMarker, "", .start⟩
  obtain ⟨stack, position, hreaches, hdone⟩ := hbuilt.accepts_of_forest hterm hforest
    (fun token htoken hkind => hsentence_marker (List.mem_map.mpr ⟨token, htoken, hkind⟩))
    (rfl : last.kind = endMarker) []
  rw [List.map_append, List.append_assoc] at hreaches
  obtain ⟨stack', position', hfirst, hsecond⟩ := exists_of_reaches_append hreaches (by simp)
  refine ⟨stack', position', hfirst, ?_⟩
  have hahead : TokenAhead (others.map .ok ++ [.ok last]) := TokenAhead.append ⟨last, [], rfl⟩ others
  obtain ⟨token, rest, hinput⟩ := hahead
  rw [hinput] at hsecond
  exact exists_settled_of_reaches hsecond hdone

-- The first token that no sentence goes on with is the one that is reported.
theorem reaches_unexpected (hproductive : grammar.AllProductive start) {token : Token String}
    (hviable : grammar.Viable body (kinds tokens))
    (hmarker : ∀ token ∈ tokens, token.kind ≠ endMarker)
    (hnot : ¬ grammar.Viable body (kinds (tokens ++ [token])))
    (rest : List (Except LexicalError (Token String))) :
    ∃ last, tables.Reaches ⟨[], .start, tokens.map .ok ++ .ok token :: rest⟩ last ∧
      tables.step last = .done (.error (.unexpected token.kind token.position)) := by
  obtain ⟨stack, position, hreaches, settled, hsettled, hreduce⟩ :=
    hbuilt.reaches_of_viable hterm hviable hmarker
  have hfirst := reaches_append hreaches (.ok token :: rest)
  obtain ⟨position', hsecond⟩ := reaches_of_reduces hsettled
  refine ⟨_, hfirst.trans hsecond, ?_⟩
  have hinput : tables.Reaches ⟨[], .start, tokens.map .ok ++ .ok token :: rest⟩
      ⟨settled, position', .ok token :: rest⟩ := hfirst.trans hsecond
  have haction : tables.action? (topState settled) token.kind = none := by
    by_contra hsome
    obtain ⟨action, haction⟩ := Option.ne_none_iff_exists'.mp hsome
    obtain ⟨more, hmore, _, hread⟩ := HasRead.nil.of_reaches hbuilt hinput
    obtain rfl : tokens = more := by
      have hmap := List.append_cancel_right hmore
      exact List.map_injective_iff.mpr (fun _ _ => Except.ok.inj) hmap
    exact hnot (hbuilt.viable_of_action? hproductive hterm hread haction hreduce)
  simp [step, haction, unexpected]

-- Tokens that begin a sentence are all read, whatever comes after them.
theorem reaches_tail (hviable : grammar.Viable body (kinds tokens))
    (hmarker : ∀ token ∈ tokens, token.kind ≠ endMarker)
    (tail : List (Except LexicalError (Token String))) :
    ∃ stack, tables.Reaches ⟨[], .start, tokens.map .ok ++ tail⟩
      ⟨stack, (tokens.getLast?.map Token.position).getD .start, tail⟩ := by
  obtain ⟨stack, position, hreaches, _⟩ := hbuilt.reaches_of_viable hterm hviable hmarker
  obtain rfl := position_of_reaches hreaches
  exact ⟨stack, reaches_append hreaches tail⟩

end Built

theorem map_ok_eq_append {place : Nat} (hplace : place < tokens.length) :
    (tokens.map .ok : List (Except LexicalError (Token String))) =
      (tokens.take place).map .ok ++ .ok tokens[place] :: (tokens.drop (place + 1)).map .ok := by
  rw [← List.map_cons, ← List.map_append, ← List.drop_eq_getElem_cons hplace, List.take_append_drop]

theorem run_of_parse_ne {input : List (Except LexicalError (Token String))}
    (h : tables.parse input ≠ .error .endless) :
    tables.run (tables.stepBound input.length) ⟨[], .start, input⟩ = some (tables.parse input) := by
  cases hrun : tables.run (tables.stepBound input.length) ⟨[], .start, input⟩ with
  | none => exact absurd (by rw [parse, hrun, Option.getD_none]) h
  | some result => rw [parse, hrun, Option.getD_some]

-- What a parser answers for tokens of which at most the last is an end marker: the first token that no
-- sentence goes on with, the end of the tokens if there is none and no end marker, or a tree.
structure AnswersEarliest (tables : Tables) (grammar : Grammar) (body : List Symbol)
    (tokens : List (Token String)) : Prop where
  halts : ∃ fuel result, tables.run fuel ⟨[], .start, tokens.map .ok⟩ = some result
  unexpected (place : Nat) (h : place < tokens.length) :
    (∀ before < place, grammar.Viable body (kinds (tokens.take (before + 1)))) →
    ¬ grammar.Viable body (kinds (tokens.take (place + 1))) →
    tables.parse (tokens.map .ok) =
      .error (.unexpected tokens[place].kind tokens[place].position)
  unexpectedEnd :
    (∀ place < tokens.length, grammar.Viable body (kinds (tokens.take (place + 1)))) →
    (∀ token ∈ tokens, token.kind ≠ endMarker) →
    tables.parse (tokens.map .ok) =
      .error (.unexpectedEnd ((tokens.getLast?.map Token.position).getD .start))
  accepted :
    (∀ place < tokens.length, grammar.Viable body (kinds (tokens.take (place + 1)))) →
    (∃ token ∈ tokens, token.kind = endMarker) →
    ∃ tree, tables.parse (tokens.map .ok) = .ok tree

namespace Built

variable (hbuilt : Built grammar start tables) (hterm : grammar.Terminated start body)
  (hproductive : grammar.AllProductive start)

include hterm hproductive

theorem viable_take {count : Nat}
    (h : ∀ before < count, grammar.Viable body (kinds (tokens.take (before + 1)))) :
    grammar.Viable body (kinds (tokens.take count)) := by
  cases count with
  | zero =>
      obtain ⟨sentence, hsentence⟩ := hterm.exists_sentence hproductive
      exact ⟨sentence, hsentence, by simp [kinds]⟩
  | succ count => exact h count (Nat.lt_succ_self count)

theorem viable_of_forall
    (h : ∀ place < tokens.length, grammar.Viable body (kinds (tokens.take (place + 1)))) :
    grammar.Viable body (kinds tokens) := by
  have htake := viable_take hterm hproductive h
  rwa [List.take_length] at htake

include hbuilt

theorem parse_unexpected (hmarker : ∀ token ∈ tokens.dropLast, token.kind ≠ endMarker) {place : Nat}
    (hplace : place < tokens.length)
    (hbefore : ∀ before < place, grammar.Viable body (kinds (tokens.take (before + 1))))
    (hnot : ¬ grammar.Viable body (kinds (tokens.take (place + 1)))) :
    tables.parse (tokens.map .ok) =
      .error (.unexpected tokens[place].kind tokens[place].position) := by
  have hfront : ∀ token ∈ tokens.take place, token.kind ≠ endMarker := by
    intro token htoken
    refine hmarker token ?_
    rw [List.dropLast_eq_take]
    exact (List.take_subset_take_left tokens (by omega)) htoken
  rw [List.take_succ_eq_append_getElem hplace] at hnot
  obtain ⟨last, hreaches, hdone⟩ := hbuilt.reaches_unexpected hterm hproductive
    (viable_take hterm hproductive hbefore) hfront hnot ((tokens.drop (place + 1)).map .ok)
  rw [map_ok_eq_append hplace]
  exact hbuilt.parse_eq_of_reaches hreaches hdone

omit hproductive in
theorem parse_unexpectedEnd (hviable : grammar.Viable body (kinds tokens))
    (hmarker : ∀ token ∈ tokens, token.kind ≠ endMarker) :
    tables.parse (tokens.map .ok) =
      .error (.unexpectedEnd ((tokens.getLast?.map Token.position).getD .start)) := by
  obtain ⟨stack, hreaches⟩ := hbuilt.reaches_tail hterm hviable hmarker []
  rw [List.append_nil] at hreaches
  exact hbuilt.parse_eq_of_reaches hreaches rfl

omit hproductive in
theorem exists_parse_eq_ok (hviable : grammar.Viable body (kinds tokens))
    (hmarker : ∀ token ∈ tokens.dropLast, token.kind ≠ endMarker)
    (hend : ∃ token ∈ tokens, token.kind = endMarker) :
    ∃ tree, tables.parse (tokens.map .ok) = .ok tree := by
  obtain ⟨token, htoken, hkind⟩ := hend
  obtain ⟨front, last, rfl⟩ : ∃ front last, tokens = front ++ [last] :=
    ⟨_, _, (List.dropLast_append_getLast (List.ne_nil_of_mem htoken)).symm⟩
  rw [List.dropLast_concat] at hmarker
  have hlast : last.kind = endMarker := by
    rcases List.mem_append.mp htoken with hfront | hlast
    · exact absurd hkind (hmarker token hfront)
    · rwa [← List.mem_singleton.mp hlast]
  obtain ⟨sentence, hsentence, hprefix⟩ := hviable
  have hkinds : kinds (front ++ [last]) = kinds front ++ [endMarker] := by simp [kinds, hlast]
  obtain rfl : kinds front = sentence := by
    rw [hkinds] at hprefix
    rcases List.prefix_concat_iff.mp hprefix with heq | hwithin
    · exact List.append_cancel_right heq
    · exact absurd (hwithin.subset (by simp)) (hterm.marker_notMem_sentence hsentence)
  obtain ⟨trees, hforest⟩ := exists_forest_of_derives hsentence
  exact ⟨_, (hbuilt.parse_eq_ok_iff hterm hmarker hlast).mpr ⟨trees, rfl, hforest⟩⟩

omit hbuilt hterm hproductive in
theorem exists_first_place
    (h : ¬ ∀ place < tokens.length, grammar.Viable body (kinds (tokens.take (place + 1)))) :
    ∃ place < tokens.length,
      (∀ before < place, grammar.Viable body (kinds (tokens.take (before + 1)))) ∧
        ¬ grammar.Viable body (kinds (tokens.take (place + 1))) := by
  classical
  push Not at h
  obtain ⟨hplace, hnot⟩ := Nat.find_spec h
  refine ⟨Nat.find h, hplace, fun before hlt => ?_, hnot⟩
  by_contra hearlier
  exact Nat.find_min h hlt ⟨hlt.trans hplace, hearlier⟩

-- With the end marker at the end the input does not end early.
theorem parse_of_marker (hmarker : ∀ token ∈ tokens.dropLast, token.kind ≠ endMarker)
    (hend : ∃ token ∈ tokens, token.kind = endMarker) :
    (∃ tree, tables.parse (tokens.map .ok) = .ok tree) ∨ ∃ token ∈ tokens,
      tables.parse (tokens.map .ok) = .error (.unexpected token.kind token.position) := by
  by_cases hall : ∀ place < tokens.length, grammar.Viable body (kinds (tokens.take (place + 1)))
  · exact .inl (hbuilt.exists_parse_eq_ok hterm (viable_of_forall hterm hproductive hall) hmarker hend)
  · obtain ⟨place, hplace, hbefore, hnot⟩ := exists_first_place hall
    exact .inr ⟨_, List.getElem_mem hplace,
      hbuilt.parse_unexpected hterm hproductive hmarker hplace hbefore hnot⟩

-- An error in the input is reported unless a token before it is.
theorem parse_of_error (hmarker : ∀ token ∈ tokens, token.kind ≠ endMarker) (error : LexicalError) :
    tables.parse (tokens.map .ok ++ [.error error]) = .error (.lexical error) ∨ ∃ token ∈ tokens,
      tables.parse (tokens.map .ok ++ [.error error]) =
        .error (.unexpected token.kind token.position) := by
  by_cases hall : ∀ place < tokens.length, grammar.Viable body (kinds (tokens.take (place + 1)))
  · obtain ⟨stack, hreaches⟩ := hbuilt.reaches_tail hterm
      (viable_of_forall hterm hproductive hall) hmarker [.error error]
    exact .inl (hbuilt.parse_eq_of_reaches hreaches rfl)
  · obtain ⟨place, hplace, hbefore, hnot⟩ := exists_first_place hall
    rw [List.take_succ_eq_append_getElem hplace] at hnot
    obtain ⟨last, hreaches, hdone⟩ := hbuilt.reaches_unexpected hterm hproductive
      (viable_take hterm hproductive hbefore)
      (fun token htoken => hmarker token (List.mem_of_mem_take htoken)) hnot
      ((tokens.drop (place + 1)).map .ok ++ [.error error])
    refine .inr ⟨_, List.getElem_mem hplace, ?_⟩
    rw [map_ok_eq_append hplace, List.append_assoc]
    exact hbuilt.parse_eq_of_reaches hreaches hdone

theorem parse_ne_endless (hmarker : ∀ token ∈ tokens.dropLast, token.kind ≠ endMarker) :
    tables.parse (tokens.map .ok) ≠ .error .endless := by
  by_cases hend : ∃ token ∈ tokens, token.kind = endMarker
  · rcases hbuilt.parse_of_marker hterm hproductive hmarker hend with ⟨tree, htree⟩ | ⟨token, _, htoken⟩
    · simp [htree]
    · simp [htoken]
  · by_cases hall : ∀ place < tokens.length, grammar.Viable body (kinds (tokens.take (place + 1)))
    · simp [hbuilt.parse_unexpectedEnd hterm (viable_of_forall hterm hproductive hall)
        fun token htoken hkind => hend ⟨token, htoken, hkind⟩]
    · obtain ⟨place, hplace, hbefore, hnot⟩ := exists_first_place hall
      simp [hbuilt.parse_unexpected hterm hproductive hmarker hplace hbefore hnot]

theorem answersEarliest (hmarker : ∀ token ∈ tokens.dropLast, token.kind ≠ endMarker) :
    tables.AnswersEarliest grammar body tokens := by
  refine ⟨?_, ?_, ?_, ?_⟩
  · exact ⟨_, _, run_of_parse_ne (hbuilt.parse_ne_endless hterm hproductive hmarker)⟩
  · intro place hplace
    exact hbuilt.parse_unexpected hterm hproductive hmarker hplace
  · intro hall
    exact hbuilt.parse_unexpectedEnd hterm (viable_of_forall hterm hproductive hall)
  · intro hall
    exact hbuilt.exists_parse_eq_ok hterm (viable_of_forall hterm hproductive hall) hmarker

end Built

end Tables

end Handheld
