import Handheld.Proofs.Automaton.Tables
import Handheld.Proofs.ShiftReduce.Steps

namespace Handheld

-- The trees of a stack in the order of their tokens.
def treesOf (stack : List (Nat × ParseTree)) : List ParseTree := (stack.map (·.2)).reverse

def spelled (stack : List (Nat × ParseTree)) : List Symbol := (treesOf stack).map ParseTree.symbol

@[simp] theorem treesOf_nil : treesOf [] = [] := rfl

@[simp] theorem treesOf_cons (state : Nat) (tree : ParseTree) (stack : List (Nat × ParseTree)) :
    treesOf ((state, tree) :: stack) = treesOf stack ++ [tree] := by
  simp [treesOf]

theorem treesOf_drop_append_take (count : Nat) (stack : List (Nat × ParseTree)) :
    treesOf (stack.drop count) ++ treesOf (stack.take count) = treesOf stack := by
  rw [treesOf, treesOf, treesOf, ← List.reverse_append, ← List.map_append, List.take_append_drop]

@[simp] theorem spelled_cons (state : Nat) (tree : ParseTree) (stack : List (Nat × ParseTree)) :
    spelled ((state, tree) :: stack) = spelled stack ++ [tree.symbol] := by
  simp [spelled]

namespace Tables

open Automaton ParseTree

variable {grammar : Grammar} {start : String} {tables : Tables} {body : List Symbol}

-- The states of a stack are the places of the automaton on the way that its trees spell.
inductive Path (tables : Tables) : List (Nat × ParseTree) → Prop
  | nil : Path tables []
  | cons {state : Nat} {tree : ParseTree} {stack : List (Nat × ParseTree)} : Path tables stack →
      tables.enter? (topState stack) tree.symbol = some state → Path tables ((state, tree) :: stack)

theorem Path.drop {stack : List (Nat × ParseTree)} (h : tables.Path stack) (count : Nat) :
    tables.Path (stack.drop count) := by
  induction h generalizing count with
  | nil => simpa using .nil
  | cons hpath henter ih =>
      cases count with
      | zero => exact .cons hpath henter
      | succ count => exact ih count

theorem mem_rhs_of_next? {item : Item} {symbol : Symbol} (h : item.next? = some symbol) :
    symbol ∈ item.production.rhs :=
  List.mem_of_getElem? h

theorem isFinished_of_drop {item : Item} (h : item.production.rhs.drop item.cursor = []) :
    item.isFinished := by
  rw [List.drop_eq_nil_iff] at h
  simpa [Item.isFinished] using Nat.le_antisymm item.cursor_le h

namespace Built

variable (hbuilt : Built grammar start tables) {state next : Nat} {symbol : Symbol} {item : Item}

include hbuilt

theorem mem_productions_iff {production : Production} :
    production ∈ tables.productions ↔
      grammar.Reachable start production.lhs ∧ grammar.Offers production.lhs production.rhs :=
  Grammar.mem_productions_iff hbuilt.productions_eq

-- What an item waits for belongs to the grammar.
theorem mem_productions_of_next? {lhs : String} {rhs : List Symbol}
    (hitem : tables.HasItem state item) (hnext : item.next? = some (.nonterminal lhs))
    (hoffer : grammar.Offers lhs rhs) : ⟨lhs, rhs⟩ ∈ tables.productions := by
  obtain ⟨hreach, hoffers⟩ := hbuilt.mem_productions_iff.mp (hbuilt.production_mem hitem)
  exact hbuilt.mem_productions_iff.mpr ⟨.mention hreach hoffers (mem_rhs_of_next? hnext), hoffer⟩

theorem cursor_eq_zero {first : Production} (hfirst : tables.productions.head? = some first)
    (hitem : tables.HasItem 0 item) : item.cursor = 0 :=
  hbuilt.hasItem_zero_induction (P := fun item => item.cursor = 0) hfirst rfl
    (fun _ _ _ _ _ _ => rfl) hitem

-- What an item of the latest state has read lies on the stack, on top of a state where it was about to
-- be read.
theorem hasItem_drop {first : Production} (hfirst : tables.productions.head? = some first)
    {stack : List (Nat × ParseTree)} (hpath : tables.Path stack)
    (hitem : tables.HasItem (topState stack) item) :
    item.cursor ≤ stack.length ∧
      (treesOf (stack.take item.cursor)).map ParseTree.symbol = item.production.rhs.take item.cursor ∧
        tables.HasItem (topState (stack.drop item.cursor)) (.initial item.production) := by
  have hunread (item : Item) (hcursor : item.cursor = 0) : item = .initial item.production := by
    obtain ⟨production, cursor, _⟩ := item
    simpa [Item.initial] using hcursor
  induction hpath generalizing item with
  | nil =>
      have hcursor := hbuilt.cursor_eq_zero hfirst hitem
      refine ⟨by omega, by simp [hcursor], ?_⟩
      rw [hcursor, List.drop_zero, ← hunread item hcursor]
      exact hitem
  | @cons state tree stack _ henter ih =>
      by_cases hcursor : item.cursor = 0
      · refine ⟨by omega, by simp [hcursor], ?_⟩
        rw [hcursor, List.drop_zero, ← hunread item hcursor]
        exact hitem
      · obtain ⟨before, hbefore, hnext, rfl⟩ := hbuilt.exists_of_hasItem henter hitem hcursor
        obtain ⟨hlength, hspelled, hinitial⟩ := ih hbefore
        rw [Item.production_advanced, Item.take_cursor_advanced hnext, Item.cursor_advanced hnext]
        exact ⟨Nat.succ_le_succ hlength, by simp [hspelled], hinitial⟩

-- A finished item is reduced when its nonterminal is waited for below its trees.
theorem reduces_of_isFinished {pushed stack : List (Nat × ParseTree)}
    (hitem : tables.HasItem (topState (pushed ++ stack)) item) (hfinished : item.isFinished)
    (hlength : pushed.length = item.production.rhs.length)
    (hgoto : tables.goto? (topState stack) item.production.lhs = some state) :
    tables.Reduces (pushed ++ stack)
      ((state, .branch item.production.lhs (treesOf pushed)) :: stack) := by
  obtain ⟨rule, hrule, haction⟩ := hbuilt.exists_reduce_of_isFinished hitem hfinished
  have hbelow : tables.goto? (topState ((pushed ++ stack).drop item.production.rhs.length))
      item.production.lhs = some state := by
    rwa [← hlength, List.drop_left]
  have hreduces := Reduces.intro (ActionTable.action?_eq_reduce_iff.mp (haction "")) hrule
    (by simp [hlength]) hbelow
  rwa [← hlength, List.drop_left, List.take_left] at hreduces

variable (hterm : grammar.Terminated start body)

include hterm

theorem head?_productions :
    tables.productions.head? = some ⟨start, body ++ [.terminal endMarker]⟩ :=
  Grammar.head?_productions hbuilt.productions_eq hterm.rule

theorem eq_first_of_marker_mem {production : Production} (hmem : production ∈ tables.productions)
    (hmarker : .terminal endMarker ∈ production.rhs) :
    production = ⟨start, body ++ [.terminal endMarker]⟩ := by
  obtain ⟨hreach, hoffers⟩ := hbuilt.mem_productions_iff.mp hmem
  by_cases hlhs : production.lhs = start
  · obtain ⟨lhs, rhs⟩ := production
    obtain rfl : lhs = start := hlhs
    exact congrArg _ (hterm.offers_start_iff.mp hoffers)
  · exact absurd hmarker (hterm.marker_notMem hreach hlhs hoffers)

-- Rule 0 is about to be read in the first state only, where no other state leads back to.
theorem not_hasItem_first (henter : tables.enter? state symbol = some next) :
    ¬ tables.HasItem next (.initial ⟨start, body ++ [.terminal endMarker]⟩) := by
  intro hitem
  refine hbuilt.hasItem_induction
    (P := fun item => item ≠ .initial ⟨start, body ++ [.terminal endMarker]⟩) henter ?_ ?_ hitem rfl
  · intro before _ hnext heq
    have hcursor := Item.cursor_advanced hnext
    simp [heq] at hcursor
  · intro item production hhas _ hnext _ heq
    obtain rfl := congrArg Item.production heq
    obtain ⟨hreach, hoffers⟩ := hbuilt.mem_productions_iff.mp (hbuilt.production_mem hhas)
    exact hterm.start_notMem hreach hoffers (mem_rhs_of_next? hnext)

theorem stack_eq_nil {stack : List (Nat × ParseTree)} (hpath : tables.Path stack)
    (hitem : tables.HasItem (topState stack) (.initial ⟨start, body ++ [.terminal endMarker]⟩)) :
    stack = [] := by
  cases hpath with
  | nil => rfl
  | cons _ henter => exact absurd hitem (hbuilt.not_hasItem_first hterm henter)

-- An item before the end marker has read the body of the start.
theorem cursor_of_marker (hitem : tables.HasItem state item)
    (hnext : item.next? = some (.terminal endMarker)) :
    item.production = ⟨start, body ++ [.terminal endMarker]⟩ ∧ item.cursor = body.length := by
  have hproduction := hbuilt.eq_first_of_marker_mem hterm (hbuilt.production_mem hitem)
    (mem_rhs_of_next? hnext)
  refine ⟨hproduction, ?_⟩
  rw [Item.next?, hproduction] at hnext
  by_contra hne
  rcases Nat.lt_or_gt_of_ne hne with hlt | hgt
  · rw [List.getElem?_append_left hlt] at hnext
    exact hterm.marker_notMem_body (List.mem_of_getElem? hnext)
  · have hle := item.cursor_le
    rw [hproduction, List.length_append, List.length_singleton] at hle
    obtain ⟨hlength, _⟩ := List.getElem?_eq_some_iff.mp hnext
    rw [List.length_append, List.length_singleton] at hlength
    omega

end Built

-- What a parser has read so far lies on its stack, as trees of the grammar on a path of the
-- automaton.
structure HasRead (grammar : Grammar) (tables : Tables) (tokens : List (Token String))
    (stack : List (Nat × ParseTree)) : Prop where
  path : tables.Path stack
  forest : Forest grammar (spelled stack) tokens (treesOf stack)

namespace HasRead

variable {tokens : List (Token String)} {stack stack' : List (Nat × ParseTree)}

theorem nil : HasRead grammar tables [] [] := ⟨.nil, rfl, by simp, rfl⟩

theorem shift {token : Token String} {next : Nat} (h : HasRead grammar tables tokens stack)
    (haction : tables.action? (topState stack) token.kind = some (.shift next)) :
    HasRead grammar tables (tokens ++ [token]) ((next, .leaf token) :: stack) := by
  refine ⟨.cons h.path (enter?_terminal_iff.mpr haction), ?_⟩
  rw [spelled_cons, treesOf_cons]
  exact h.forest.append ⟨rfl, by simpa using Follows.leaf token, by simp⟩

theorem reduce {first : Production} (hbuilt : Built grammar start tables)
    (hfirst : tables.productions.head? = some first) (h : HasRead grammar tables tokens stack)
    (hreduces : tables.Reduces stack stack') : HasRead grammar tables tokens stack' := by
  obtain @⟨rule, next, production, hrule, hproduction, hlength, hgoto⟩ := hreduces
  have haction : tables.action? (topState stack) "" = some (.reduce rule) :=
    ActionTable.action?_eq_reduce_iff.mpr hrule
  obtain ⟨item, hitem, hfinished, hitem_production⟩ := hbuilt.production?_of_reduce haction
  obtain rfl := Option.some.inj (hproduction.symm.trans hitem_production)
  have hcursor : item.cursor = item.production.rhs.length := by simpa [Item.isFinished] using hfinished
  obtain ⟨_, hchildren, _⟩ := hbuilt.hasItem_drop hfirst h.path hitem
  rw [hcursor, List.take_length] at hchildren
  have hoffers := (hbuilt.mem_productions_iff.mp (hbuilt.production_mem hitem)).2
  have hsplit := treesOf_drop_append_take item.production.rhs.length stack
  refine ⟨.cons (h.path.drop _) hgoto, rfl, ?_, ?_⟩
  · intro tree htree
    rw [treesOf_cons, List.mem_append, List.mem_singleton] at htree
    rcases htree with hbelow | rfl
    · exact h.forest.follows tree (hsplit ▸ List.mem_append_left _ hbelow)
    · refine .branch ?_ fun child hchild =>
        h.forest.follows child (hsplit ▸ List.mem_append_right _ hchild)
      exact hchildren.symm ▸ hoffers
  · have hleaves := h.forest.leaves_eq
    rw [← hsplit, leavesOfAll_append] at hleaves
    simpa [treesOf] using hleaves

-- A run reads a part of its input and keeps the rest. An end marker is never read.
theorem of_reaches (hbuilt : Built grammar start tables) {before after : Parsing}
    (hreaches : tables.Reaches before after) (h : HasRead grammar tables tokens before.stack) :
    ∃ more, before.input = more.map .ok ++ after.input ∧ (∀ token ∈ more, token.kind ≠ endMarker) ∧
      HasRead grammar tables (tokens ++ more) after.stack := by
  obtain ⟨first, hfirst⟩ := hbuilt.exists_production_zero
  induction hreaches using Relation.ReflTransGen.head_induction_on generalizing tokens with
  | refl => exact ⟨[], by simp, by simp, by simpa using h⟩
  | head hstep _ ih =>
      obtain ⟨token, rest, hinput, ⟨next, haction, rfl⟩ | ⟨stack', hreduces, rfl⟩⟩ :=
        steps_iff.mp hstep
      · obtain ⟨more, hrest, hmarker, hread⟩ := ih (h.shift haction)
        refine ⟨token :: more, ?_, ?_, by simpa using hread⟩
        · rw [hinput, List.map_cons, List.cons_append, ← hrest]
        · exact List.forall_mem_cons.mpr ⟨hbuilt.kind_ne_of_shift haction, hmarker⟩
      · exact ih (h.reduce hbuilt hfirst hreduces)

-- A parser that accepts has read the body of the start.
theorem forest_of_accept (hbuilt : Built grammar start tables) (hterm : grammar.Terminated start body)
    (h : HasRead grammar tables tokens stack) {terminal : String}
    (haction : tables.action? (topState stack) terminal = some .accept) :
    Forest grammar body tokens (treesOf stack) := by
  obtain ⟨_, item, hitem, hnext⟩ := hbuilt.action?_eq_accept_iff.mp haction
  obtain ⟨hproduction, hcursor⟩ := hbuilt.cursor_of_marker hterm hitem hnext
  obtain ⟨hlength, hspelled, hinitial⟩ :=
    hbuilt.hasItem_drop (hbuilt.head?_productions hterm) h.path hitem
  rw [hcursor, hproduction] at hspelled hinitial
  have hnil := hbuilt.stack_eq_nil hterm (h.path.drop _) hinitial
  rw [List.drop_eq_nil_iff] at hnil
  rw [List.take_of_length_le hnil, List.take_left] at hspelled
  exact ⟨hspelled, h.forest.follows, h.forest.leaves_eq⟩

end HasRead

end Tables

end Handheld
