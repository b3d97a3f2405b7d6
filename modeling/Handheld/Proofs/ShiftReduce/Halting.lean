import Handheld.Proofs.Grammar.Sentence
import Handheld.Proofs.ShiftReduce.Language
import Handheld.Proofs.ShiftReduce.Looping
import Handheld.Proofs.ShiftReduce.Stacks

namespace Handheld.Tables

open Automaton ParseTree Text

variable {grammar : Grammar} {start : String} {tables : Tables} {first production : Production}
  {stack stack' : List (Nat × ParseTree)} {item : Item}

-- The reductions of a stack come to an end.
def Rests (tables : Tables) (stack : List (Nat × ParseTree)) : Prop :=
  tables.SettlesAbove 0 (stack.map (·.1))

def ReducesTo (tables : Tables) : List (Nat × ParseTree) → List (Nat × ParseTree) → Prop :=
  Relation.ReflTransGen tables.Reduces

theorem ReducesTo.states (h : tables.ReducesTo stack stack') :
    Relation.ReflTransGen (tables.ReducesAbove 0) (stack.map (·.1)) (stack'.map (·.1)) :=
  Relation.ReflTransGen.lift (fun stack : List (Nat × ParseTree) => stack.map (·.1))
    (fun _ _ hreduces => reduceAbove?_of_reduces hreduces) _ _ h

theorem exists_reducesTo {states : List Nat}
    (h : Relation.ReflTransGen (tables.ReducesAbove 0) (stack.map (·.1)) states) :
    ∃ stack', tables.ReducesTo stack stack' ∧ stack'.map (·.1) = states := by
  induction h with
  | refl => exact ⟨stack, .refl, rfl⟩
  | tail _ hstep ih =>
      obtain ⟨middle, hreducesTo, rfl⟩ := ih
      obtain ⟨stack', hreduces, hstates⟩ := exists_reduces hstep
      exact ⟨stack', hreducesTo.tail hreduces, hstates⟩

theorem ReducesTo.exists_reaches (h : tables.ReducesTo stack stack') (position : Position)
    (token : Token String) (rest : List (Except LexicalError (Token String))) :
    ∃ position', tables.Reaches ⟨stack, position, .ok token :: rest⟩
      ⟨stack', position', .ok token :: rest⟩ := by
  induction h with
  | refl => exact ⟨position, .refl⟩
  | tail _ hreduces ih =>
      obtain ⟨_, hreaches⟩ := ih
      exact ⟨token.position, hreaches.tail (.reduce hreduces)⟩

theorem rests_of_reduce?_eq_none (h : tables.actions.reduce? (topState stack) = none) :
    tables.Rests stack := by
  refine ⟨0, _, .done ?_⟩
  rw [topState_eq] at h
  rw [reduceAbove?, h, Option.bind_none]

theorem Rests.of_reducesTo (hreduces : tables.ReducesTo stack stack') (h : tables.Rests stack') :
    tables.Rests stack :=
  SettlesAbove.of_reducesTo hreduces.states h

theorem Path.reduces (hpath : tables.Path stack) (h : tables.Reduces stack stack') :
    tables.Path stack' := by
  obtain ⟨_, _, _, hgoto⟩ := h
  exact .cons (hpath.drop _) hgoto

theorem Path.reducesTo (hpath : tables.Path stack) (h : tables.ReducesTo stack stack') :
    tables.Path stack' := by
  induction h with
  | refl => exact hpath
  | tail _ hstep ih => exact ih.reduces hstep

-- Where an item waits for the symbol of a tree, the reductions rest, or they come to have the tree on top.
def Builds (tables : Tables) (tree : ParseTree) : Prop :=
  ∀ ⦃stack item⦄, tables.HasItem (topState stack) item → item.next? = some tree.symbol →
    tables.Rests stack ∨ ∃ state, tables.enter? (topState stack) tree.symbol = some state ∧
      tables.ReducesTo stack ((state, tree) :: stack)

-- However much of an item the parser has read on top of a stack, the reductions rest.
def RestsOn (tables : Tables) (stack : List (Nat × ParseTree)) (item : Item) : Prop :=
  ∀ pushed item', tables.Path (pushed ++ stack) → tables.HasItem (topState (pushed ++ stack)) item' →
    item'.production = item.production → item'.cursor = item.cursor + pushed.length →
    tables.Rests (pushed ++ stack)

namespace Built

variable (hbuilt : Built grammar start tables)

include hbuilt

-- A state that waits for a terminal has no reduction: the two would be in conflict.
theorem reduce?_eq_none {state : Nat} {name : String} (hitem : tables.HasItem state item)
    (hnext : item.next? = some (.terminal name)) : tables.actions.reduce? state = none := by
  by_contra hsome
  obtain ⟨rule, hrule⟩ := Option.ne_none_iff_exists'.mp hsome
  have hreduce : tables.action? state name = some (.reduce rule) :=
    ActionTable.action?_eq_reduce_iff.mpr hrule
  by_cases hname : name = endMarker
  · subst hname
    have haccept := hbuilt.action?_eq_accept_iff.mpr ⟨rfl, item, hitem, hnext⟩
    simp [hreduce] at haccept
  · obtain ⟨next, henter⟩ := hbuilt.exists_enter?_iff.mpr
      ⟨by simp [Symbol.isEndMarker, hname], item, hitem, hnext⟩
    simp [enter?_terminal_iff.mp henter] at hreduce

theorem builds_trees {trees : List ParseTree} (htrees : ∀ tree ∈ trees, tables.Builds tree)
    {more : List Symbol} (hitem : tables.HasItem (topState stack) item)
    (hdrop : item.production.rhs.drop item.cursor = trees.map symbol ++ more) :
    tables.Rests stack ∨ ∃ pushed item', treesOf pushed = trees ∧
      tables.ReducesTo stack (pushed ++ stack) ∧ tables.HasItem (topState (pushed ++ stack)) item' ∧
        item'.production = item.production ∧ item'.production.rhs.drop item'.cursor = more := by
  induction trees generalizing stack item with
  | nil => exact .inr ⟨[], item, rfl, .refl, hitem, rfl, hdrop⟩
  | cons tree trees ih =>
      have hnext : item.next? = some tree.symbol := by
        have hhead := congrArg List.head? hdrop
        rwa [List.head?_drop] at hhead
      rcases htrees tree (by simp) hitem hnext with hrests | ⟨state, henter, hreduces⟩
      · exact .inl hrests
      · have hrest : item.advanced.production.rhs.drop item.advanced.cursor =
            trees.map symbol ++ more := by
          rw [Item.drop_cursor hnext] at hdrop
          exact (List.cons.inj hdrop).2
        have hadvanced : tables.HasItem (topState ((state, tree) :: stack)) item.advanced :=
          hbuilt.hasItem_advanced hitem hnext henter
        rcases ih (fun tree htree => htrees tree (by simp [htree])) hadvanced hrest with
          hrests | ⟨pushed, item', htrees', hpushed, hitem', hproduction, hmore⟩
        · exact .inl (.of_reducesTo hreduces hrests)
        · refine .inr ⟨pushed ++ [(state, tree)], item', ?_, ?_, ?_, hproduction, hmore⟩
          · simpa [treesOf] using htrees'
          · rw [List.append_assoc]
            exact Relation.ReflTransGen.trans hreduces hpushed
          · simpa using hitem'

theorem builds_of_follows {tree : ParseTree} (h : tree.Follows grammar) : tables.Builds tree := by
  induction h with
  | leaf token =>
      intro stack item hitem hnext
      exact .inl (rests_of_reduce?_eq_none (hbuilt.reduce?_eq_none hitem hnext))
  | @branch lhs children hoffers _ ih =>
      intro stack item hitem hnext
      obtain ⟨state, henter⟩ := hbuilt.exists_enter?_iff.mpr
        ⟨by simp [Symbol.isEndMarker], item, hitem, hnext⟩
      let production : Production := ⟨lhs, children.map symbol⟩
      have hinitial : tables.HasItem (topState stack) (.initial production) :=
        hbuilt.hasItem_initial hitem hnext (hbuilt.mem_productions_of_next? hitem hnext hoffers)
      have hdrop : production.rhs.drop (Item.initial production).cursor = children.map symbol ++ [] := by
        simp [production]
      rcases hbuilt.builds_trees ih hinitial hdrop with
        hrests | ⟨pushed, item', htrees, hreducesTo, hitem', hproduction, hdrop⟩
      · exact .inl hrests
      · have hlength : pushed.length = item'.production.rhs.length := by
          rw [hproduction, Item.production_initial]
          simp [production, ← htrees, treesOf]
        have hreduces := hbuilt.reduces_of_isFinished hitem' (isFinished_of_drop hdrop) hlength
          (by rw [hproduction]; exact henter)
        rw [hproduction, htrees] at hreduces
        exact .inr ⟨state, henter, hreducesTo.tail hreduces⟩

variable (hproductive : grammar.AllProductive start)

include hproductive

-- What is left to read of an item can be built from trees of the grammar.
theorem exists_builds {state : Nat} (hitem : tables.HasItem state item) :
    ∃ trees : List ParseTree, trees.map symbol = item.production.rhs.drop item.cursor ∧
      ∀ tree ∈ trees, tables.Builds tree := by
  obtain ⟨hreach, hoffers⟩ := hbuilt.mem_productions_iff.mp (hbuilt.production_mem hitem)
  have hnames (name : String) (hname : .nonterminal name ∈ item.production.rhs.drop item.cursor) :
      grammar.Productive name :=
    hproductive name (.mention hreach hoffers (List.mem_of_mem_drop hname))
  obtain ⟨kinds, hderives⟩ := Grammar.productive_symbols hnames
  let tokens : List (Token String) := kinds.map (⟨·, "", .start⟩)
  have hkinds : Handheld.kinds tokens = kinds := by simp [tokens, Handheld.kinds, Function.comp_def]
  rw [← hkinds] at hderives
  obtain ⟨trees, hforest⟩ := exists_forest_of_derives hderives
  exact ⟨trees, hforest.symbols_eq, fun tree htree => hbuilt.builds_of_follows (hforest.follows tree htree)⟩

-- An item that has been read in part is read on to its end, unless the reductions rest before.
theorem rests_or_isFinished (hitem : tables.HasItem (topState stack) item) :
    tables.Rests stack ∨ ∃ pushed item', tables.ReducesTo stack (pushed ++ stack) ∧
      tables.HasItem (topState (pushed ++ stack)) item' ∧ item'.production = item.production ∧
        item'.isFinished ∧ item.cursor + pushed.length = item.production.rhs.length := by
  obtain ⟨trees, hsymbols, hbuilds⟩ := hbuilt.exists_builds hproductive hitem
  rcases hbuilt.builds_trees hbuilds hitem (by rw [hsymbols, List.append_nil]) with
    hrests | ⟨pushed, item', htrees, hreducesTo, hitem', hproduction, hdrop⟩
  · exact .inl hrests
  · have hlength := congrArg List.length hsymbols
    have hle := item.cursor_le
    rw [← htrees, List.length_drop, List.length_map, treesOf, List.length_reverse, List.length_map] at hlength
    exact .inr ⟨pushed, item', hreducesTo, hitem', hproduction, isFinished_of_drop hdrop, by omega⟩

theorem restsOn_initial (hpath : tables.Path stack) (hitem : tables.HasItem (topState stack) item)
    (hnext : item.next? = some (.nonterminal production.lhs)) (hrests : tables.RestsOn stack item) :
    tables.RestsOn stack (.initial production) := by
  intro pushed item' _ hitem' hproduction hcursor
  rcases hbuilt.rests_or_isFinished hproductive hitem' with
    hrests' | ⟨more, last, hreducesTo, hlast, hsame, hfinished, hlength⟩
  · exact hrests'
  · obtain ⟨state, henter⟩ := hbuilt.exists_enter?_iff.mpr ⟨rfl, item, hitem, hnext⟩
    rw [hproduction, Item.production_initial] at hsame
    rw [hproduction, hcursor, Item.production_initial, Item.cursor_initial] at hlength
    rw [← List.append_assoc] at hreducesTo hlast
    have hreduces := hbuilt.reduces_of_isFinished hlast hfinished (by rw [hsame]; simp; omega)
      (by rw [hsame]; exact henter)
    rw [hsame] at hreduces
    refine .of_reducesTo (hreducesTo.tail hreduces) (hrests [_] item.advanced ?_ ?_ ?_ ?_)
    · exact .cons hpath henter
    · exact hbuilt.hasItem_advanced hitem hnext henter
    · exact Item.production_advanced item
    · simpa using Item.cursor_advanced hnext

-- The induction is on the stack, and for the items of one state on how they came into it. Only rule 0 has
-- nothing below it, and it is never read to its end.
theorem restsOn_of_path (hfirst : tables.production? 0 = some first)
    (hmarker : .terminal endMarker ∈ first.rhs) (hpath : tables.Path stack)
    (hitem : tables.HasItem (topState stack) item) : tables.RestsOn stack item := by
  have hhead : tables.productions.head? = some first := by rwa [List.head?_eq_getElem?]
  induction hpath generalizing item with
  | nil =>
      refine hbuilt.hasItem_zero_induction (P := tables.RestsOn []) hhead ?_ ?_ hitem
      · intro pushed item' hpath hitem' hproduction _
        rcases hbuilt.rests_or_isFinished hproductive hitem' with
          hrests | ⟨more, last, hreducesTo, hlast, hsame, hfinished, _⟩
        · exact hrests
        · have hne := hbuilt.ne_first_of_isFinished hfirst hmarker (hpath.reducesTo hreducesTo) hlast hfinished
          exact absurd (hsame.trans hproduction) hne
      · exact fun item production hitem hrests hnext _ =>
          hbuilt.restsOn_initial hproductive .nil hitem hnext hrests
  | @cons state tree stack hpath henter ih =>
      have hwhole : tables.Path ((state, tree) :: stack) := .cons hpath henter
      refine hbuilt.hasItem_induction (P := tables.RestsOn ((state, tree) :: stack)) henter ?_ ?_ hitem
      · intro before hbefore hnext pushed item' hpath' hitem' hproduction hcursor
        rw [List.append_cons] at hpath' hitem' ⊢
        refine ih hbefore _ item' hpath' hitem' hproduction ?_
        rw [hcursor, Item.cursor_advanced hnext]
        simp
        omega
      · exact fun item production hitem hrests hnext _ =>
          hbuilt.restsOn_initial hproductive hwhole hitem hnext hrests

theorem rests_of_path (hfirst : tables.production? 0 = some first)
    (hmarker : .terminal endMarker ∈ first.rhs) (hpath : tables.Path stack) : tables.Rests stack := by
  obtain ⟨item, hitem⟩ : ∃ item, tables.HasItem (topState stack) item := by
    cases hpath with
    | nil => exact ⟨_, hbuilt.hasItem_zero (by rwa [List.head?_eq_getElem?])⟩
    | cons hpath henter =>
        obtain ⟨_, item, hitem, hnext⟩ := hbuilt.exists_enter?_iff.mp ⟨_, henter⟩
        exact ⟨_, hbuilt.hasItem_advanced hitem hnext henter⟩
  exact hbuilt.restsOn_of_path hproductive hfirst hmarker hpath hitem [] item hpath hitem rfl rfl

end Built

section Run

variable {position : Position} {input : List (Except LexicalError (Token String))}
  {result : Except ParseError ParseTree}

-- A run that ends also ends from each place it comes by.
theorem exists_run_of_reaches_of_run {before after : Parsing} {fuel : Nat}
    (hreaches : tables.Reaches before after) (h : tables.run fuel before = some result) :
    ∃ fuel', tables.run fuel' after = some result := by
  induction hreaches using Relation.ReflTransGen.head_induction_on generalizing fuel with
  | refl => exact ⟨fuel, h⟩
  | head hstep _ ih =>
      cases fuel with
      | zero => simp [run] at h
      | succ fuel => exact ih ((run_succ_of_steps hstep fuel).symm.trans h)

theorem rests_of_run {fuel : Nat} {token : Token String}
    (h : tables.run fuel ⟨stack, position, .ok token :: input⟩ = some result) : tables.Rests stack := by
  obtain ⟨count, stack', _, _, hsettles, _⟩ := exists_settles_of_run h
  exact ⟨count, _, hsettles⟩

-- Where the reductions rest before each token, the run ends: it shifts no more tokens than there are.
theorem exists_run_of_rests
    (h : ∀ stack' position' token rest, tables.Reaches ⟨stack, position, input⟩
      ⟨stack', position', .ok token :: rest⟩ → tables.Rests stack') :
    ∃ fuel result, tables.run fuel ⟨stack, position, input⟩ = some result := by
  induction input generalizing stack position with
  | nil => exact ⟨1, _, rfl⟩
  | cons head input ih =>
      cases head with
      | error error => exact ⟨1, _, rfl⟩
      | ok token =>
          obtain ⟨final, hfinal, hnone⟩ := (h _ _ _ _ .refl).exists_final
          obtain ⟨stack', hreducesTo, rfl⟩ := exists_reducesTo hfinal
          obtain ⟨position', hreaches⟩ := hreducesTo.exists_reaches position token input
          cases hstep : tables.step ⟨stack', position', .ok token :: input⟩ with
          | done result =>
              obtain ⟨fuel, hrun⟩ := exists_run_of_reaches hreaches hstep
              exact ⟨fuel, result, hrun⟩
          | next after =>
              have hafter := hreaches.tail hstep
              obtain ⟨found, rest, hinput, ⟨next, _, rfl⟩ | ⟨reduced, hreduces, rfl⟩⟩ := steps_iff.mp hstep
              · obtain ⟨rfl, rfl⟩ := by simpa using hinput
                obtain ⟨fuel, result, hrun⟩ := ih fun stack'' position'' token' rest hreach =>
                  h stack'' position'' token' rest (hafter.trans hreach)
                obtain ⟨last, hlast, hdone⟩ := reaches_of_run hrun
                obtain ⟨fuel', hrun'⟩ := exists_run_of_reaches (hafter.trans hlast) hdone
                exact ⟨fuel', result, hrun'⟩
              · simp [reduceAbove?_of_reduces hreduces] at hnone

theorem step_ne_endless (parsing : Parsing) : tables.step parsing ≠ .done (.error .endless) := by
  obtain ⟨stack, position, input⟩ := parsing
  unfold step
  rcases input with _ | ⟨error | token, rest⟩
  · simp
  · simp
  · dsimp only
    split
    · simp
    · simp only [reduce, unexpected]
      split
      · simp
      · split
        · simp
        · split <;> simp
    · simp
    · simp [unexpected]

end Run

-- The bound on the steps tells a run that goes on for ever from one that ends.
theorem Built.parse_eq_endless_iff (hbuilt : Built grammar start tables)
    (input : List (Except LexicalError (Token String))) :
    tables.parse input = .error .endless ↔
      ¬ ∃ fuel result, tables.run fuel ⟨[], .start, input⟩ = some result := by
  constructor
  · rintro hparse ⟨fuel, result, hrun⟩
    obtain ⟨last, hreaches, hdone⟩ := reaches_of_run hrun
    rw [hbuilt.parse_eq_of_reaches hreaches hdone] at hparse
    exact step_ne_endless last (hparse ▸ hdone)
  · intro hnone
    by_contra hparse
    obtain ⟨last, hreaches, hdone⟩ := exists_reaches_of_parse_ne rfl hparse
    obtain ⟨fuel, hrun⟩ := exists_run_of_reaches hreaches hdone
    exact hnone ⟨fuel, _, hrun⟩

-- A run goes on for ever exactly when it comes, before a token, to a loop of its tables: a state that its
-- reductions put on top of itself, or bring back to its own place. No grammar makes that happen that has an
-- end marker in rule 0 and sentences for all its nonterminals.
theorem run_ends_iff (hbuild : build grammar start = .ok tables)
    (input : List (Except LexicalError (Token String))) :
    ((∃ fuel result, tables.run fuel ⟨[], .start, input⟩ = some result) ↔
        ∀ stack position token rest,
          tables.Reaches ⟨[], .start, input⟩ ⟨stack, position, .ok token :: rest⟩ →
            ¬ tables.LoopsAbove 0 (stack.map (·.1))) ∧
      (tables.parse input = .error .endless ↔
        ¬ ∃ fuel result, tables.run fuel ⟨[], .start, input⟩ = some result) ∧
      ((∃ first, tables.production? 0 = some first ∧ .terminal endMarker ∈ first.rhs) →
        grammar.AllProductive start →
          ∃ fuel result, tables.run fuel ⟨[], .start, input⟩ = some result) := by
  have hbuilt := built_of_build hbuild
  have hpath {after : Parsing} (hreaches : tables.Reaches ⟨[], .start, input⟩ after) :
      tables.Path after.stack := by
    obtain ⟨_, _, _, hread⟩ := HasRead.nil.of_reaches hbuilt hreaches
    exact hread.path
  have hnode {state next : Nat} {symbol : Symbol} (henter : tables.enter? state symbol = some next) :
      next ∈ Finset.range tables.states.length := Finset.mem_range.mpr (hbuilt.lt_of_enter? henter)
  have hgotos (below : Nat) (name : String) (next : Nat) (hgoto : tables.goto? below name = some next) :
      next ∈ Finset.range tables.states.length :=
    hnode (show tables.enter? below (.nonterminal name) = some next from hgoto)
  refine ⟨⟨?_, fun hloops => exists_run_of_rests fun stack position token rest hreaches => ?_⟩,
    hbuilt.parse_eq_endless_iff input, ?_⟩
  · rintro ⟨fuel, result, hrun⟩ stack position token rest hreaches hloops
    obtain ⟨fuel', hrun'⟩ := exists_run_of_reaches_of_run hreaches hrun
    exact hloops.not_settlesAbove (rests_of_run hrun')
  · refine (settlesAbove_iff hgotos ?_).mpr ?_
    · intro state hstate
      cases hpath hreaches with
      | nil => simp at hstate
      | cons _ henter =>
          obtain rfl := by simpa using hstate
          exact hnode henter
    · intro states hstates
      obtain ⟨stack', hreducesTo, rfl⟩ := exists_reducesTo hstates
      obtain ⟨position', hreaches'⟩ := hreducesTo.exists_reaches position token rest
      exact hloops stack' position' token rest (hreaches.trans hreaches')
  · rintro ⟨first, hfirst, hmarker⟩ hproductive
    exact exists_run_of_rests fun stack position token rest hreaches =>
      hbuilt.rests_of_path hproductive hfirst hmarker (hpath hreaches)

theorem marks_allProductive : marks.AllProductive "start" := by
  have hsettled : marks.settledBy ["start", "marks"] := by decide
  exact Grammar.allProductive_of_settledBy hsettled (by decide) (by decide)

theorem run_ends_iff_marks : ∃ tables, build marks "start" = .ok tables ∧
    (∃ fuel result, tables.run fuel ⟨[], .start, twoMarks⟩ = some result) ∧
      tables.parse twoMarks ≠ .error .endless := by
  obtain ⟨tables, hbuild⟩ := exists_marks_tables
  have hfirst := (built_of_build hbuild).head?_productions marks_terminated
  rw [List.head?_eq_getElem?] at hfirst
  obtain ⟨_, hendless, hends⟩ := run_ends_iff hbuild twoMarks
  have hrun := hends ⟨_, hfirst, by simp⟩ marks_allProductive
  exact ⟨tables, hbuild, hrun, fun hparse => hendless.mp hparse hrun⟩

-- After a word there may be gaps, which are empty, and there has to be a rest, which has no sentence: a tail
-- only ever comes out of a tail. So there is no token for the parser to wait for between two gaps.
def gaps : Grammar := .ofRules [("start", [[.nonterminal "line", .terminal endMarker]]),
  ("line", [[.nonterminal "word", .nonterminal "rest"]]),
  ("word", [[.nonterminal "word", .nonterminal "gap"], [.terminal "mark"]]), ("gap", [[]]),
  ("rest", [[.nonterminal "tail", .terminal "stop"]]),
  ("tail", [[.nonterminal "tail", .terminal "mark"]])]

-- A mark is read as a word, and then a gap is put on the word and taken into it.
def putsGaps (tables : Tables) : Bool :=
  match tables.action? 0 "mark" with
  | some (.shift mark) =>
    match tables.reduceAbove? 0 [mark] with
    | some [word] => ((tables.reduceAbove? 0 [word]).bind (tables.reduceAbove? 0)) = some [word]
    | _ => false
  | _ => false

theorem exists_of_putsGaps (h : putsGaps tables) : ∃ mark word,
    tables.action? 0 "mark" = some (.shift mark) ∧ tables.ReducesAbove 0 [mark] [word] ∧
      tables.Circles 0 word := by
  unfold putsGaps at h
  split at h
  · rename_i mark haction
    split at h
    · rename_i word hword
      obtain ⟨middle, hfirst, hsecond⟩ := Option.bind_eq_some_iff.mp (of_decide_eq_true h)
      exact ⟨mark, word, haction, hword, .head hfirst (.single hsecond)⟩
    · simp at h
  · simp at h

theorem run_gaps : ∃ tables, build gaps "start" = .ok tables ∧
    ∀ fuel, tables.run fuel ⟨[], .start, twoMarks⟩ = none := by
  have hgaps : (build gaps "start").toOption.any putsGaps := by decide +kernel
  obtain ⟨tables, hbuild, hgaps⟩ := Option.any_eq_true .. |>.mp hgaps
  have hbuild : build gaps "start" = .ok tables := by
    cases h : build gaps "start" <;> simp_all [Except.toOption]
  refine ⟨tables, hbuild, fun fuel => Option.eq_none_iff_forall_ne_some.mpr fun result hrun => ?_⟩
  obtain ⟨mark, word, haction, hword, hcircles⟩ := exists_of_putsGaps hgaps
  have hshift : tables.Reaches ⟨[], .start, twoMarks⟩ _ := .single (.shift haction)
  obtain ⟨fuel', hrun'⟩ := exists_run_of_reaches_of_run hshift hrun
  obtain ⟨count, final, hsettles⟩ := rests_of_run hrun'
  obtain ⟨less, _, hsettles'⟩ := hsettles.exists_lt (.single hword)
  exact LoopsAbove.not_settlesAbove (.inr ⟨word, [], rfl, hcircles⟩) ⟨less, final, hsettles'⟩

end Handheld.Tables
