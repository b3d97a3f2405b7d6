import Handheld.Proofs.ShiftReduce.StackPath

namespace Handheld.Tables

open Automaton ParseTree

variable {grammar : Grammar} {start : String} {tables : Tables} {body : List Symbol}
  {tokens : List (Token String)} {stack : List (Nat × ParseTree)} {item : Item}

def TokenAhead (input : List (Except LexicalError (Token String))) : Prop :=
  ∃ token rest, input = .ok token :: rest

theorem TokenAhead.append {input : List (Except LexicalError (Token String))} (h : TokenAhead input)
    (tokens : List (Token String)) : TokenAhead (tokens.map .ok ++ input) := by
  cases tokens with
  | nil => exact h
  | cons token tokens => exact ⟨token, _, rfl⟩

-- Whatever stack some tokens are read on, if a token comes after them, they end up as more of the
-- stack.
def Reads (tables : Tables) (stack : List (Nat × ParseTree)) (tokens : List (Token String))
    (stack' : List (Nat × ParseTree)) : Prop :=
  ∀ position input, TokenAhead input → ∃ position',
    tables.Reaches ⟨stack, position, tokens.map .ok ++ input⟩ ⟨stack', position', input⟩

theorem Reads.append {stack' stack'' : List (Nat × ParseTree)} {tokens' : List (Token String)}
    (h : tables.Reads stack tokens stack') (h' : tables.Reads stack' tokens' stack'') :
    tables.Reads stack (tokens ++ tokens') stack'' := by
  intro position input hinput
  obtain ⟨position', hfirst⟩ := h position _ (hinput.append tokens')
  obtain ⟨position'', hsecond⟩ := h' position' input hinput
  refine ⟨position'', ?_⟩
  rw [List.map_append, List.append_assoc]
  exact hfirst.trans hsecond

theorem Reads.reduce {stack' stack'' : List (Nat × ParseTree)} (h : tables.Reads stack tokens stack')
    (hreduces : tables.Reduces stack' stack'') : tables.Reads stack tokens stack'' := by
  intro position input hinput
  obtain ⟨position', hreaches⟩ := h position input hinput
  obtain ⟨token, rest, rfl⟩ := hinput
  exact ⟨token.position, hreaches.tail (.reduce hreduces)⟩

-- The parser reads the tokens of a tree as this tree wherever an item waits for its symbol.
def Readable (tables : Tables) (tree : ParseTree) : Prop :=
  ∀ ⦃stack tokens item⦄, tree.leaves = tokens.map leaf → (∀ token ∈ tokens, token.kind ≠ endMarker) →
    tables.HasItem (topState stack) item → item.next? = some tree.symbol →
    ∃ state, tables.enter? (topState stack) tree.symbol = some state ∧
      tables.Reads stack tokens ((state, tree) :: stack)

namespace Built

variable (hbuilt : Built grammar start tables)

include hbuilt

-- The trees after the cursor of an item are read one after the other, and the cursor passes them.
theorem reads_trees {trees : List ParseTree} (htrees : ∀ tree ∈ trees, tables.Readable tree)
    {more : List Symbol} (hleaves : leavesOfAll trees = tokens.map leaf)
    (hmarker : ∀ token ∈ tokens, token.kind ≠ endMarker) (hitem : tables.HasItem (topState stack) item)
    (hdrop : item.production.rhs.drop item.cursor = trees.map symbol ++ more) :
    ∃ pushed item', treesOf pushed = trees ∧ tables.Reads stack tokens (pushed ++ stack) ∧
      tables.HasItem (topState (pushed ++ stack)) item' ∧ item'.production = item.production ∧
        item'.production.rhs.drop item'.cursor = more := by
  induction trees generalizing stack tokens item with
  | nil =>
      obtain rfl : tokens = [] := by simpa using hleaves.symm
      exact ⟨[], item, rfl, fun position input _ => ⟨position, .refl⟩, hitem, rfl, hdrop⟩
  | cons tree trees ih =>
      obtain ⟨first, others, rfl, hfirst, hothers⟩ := List.map_eq_append_iff.mp hleaves.symm
      have hnext : item.next? = some tree.symbol := by
        have hhead := congrArg List.head? hdrop
        rwa [List.head?_drop] at hhead
      obtain ⟨state, henter, hreads⟩ := htrees tree (by simp) hfirst.symm
        (fun token htoken => hmarker token (by simp [htoken])) hitem hnext
      have hrest : item.advanced.production.rhs.drop item.advanced.cursor =
          trees.map symbol ++ more := by
        rw [Item.drop_cursor hnext] at hdrop
        exact (List.cons.inj hdrop).2
      have hadvanced : tables.HasItem (topState ((state, tree) :: stack)) item.advanced :=
        hbuilt.hasItem_advanced hitem hnext henter
      obtain ⟨pushed, item', htrees', hpushed, hitem', hproduction, hmore⟩ :=
        ih (fun tree htree => htrees tree (by simp [htree])) hothers.symm
          (fun token htoken => hmarker token (by simp [htoken])) hadvanced hrest
      refine ⟨pushed ++ [(state, tree)], item', ?_, ?_, ?_, hproduction, hmore⟩
      · simpa [treesOf] using htrees'
      · simpa using hreads.append hpushed
      · simpa using hitem'

-- The trees of a right-hand side are reduced to a tree of its production.
theorem reads_branch {lhs : String} {children : List ParseTree}
    (hoffers : grammar.Offers lhs (children.map symbol))
    (hchildren : ∀ child ∈ children, tables.Readable child) :
    tables.Readable (.branch lhs children) := by
  intro stack tokens item hleaves hmarker hitem hnext
  obtain ⟨state, henter⟩ := hbuilt.exists_enter?_iff.mpr
    ⟨by simp [Symbol.isEndMarker], item, hitem, hnext⟩
  refine ⟨state, henter, ?_⟩
  let production : Production := ⟨lhs, children.map symbol⟩
  have hmem : production ∈ tables.productions :=
    hbuilt.mem_productions_of_next? hitem hnext hoffers
  have hinitial : tables.HasItem (topState stack) (.initial production) :=
    hbuilt.hasItem_initial hitem hnext hmem
  have hdrop : production.rhs.drop (Item.initial production).cursor = children.map symbol ++ [] := by
    simp [production]
  obtain ⟨pushed, item', htrees, hreads, hitem', hproduction, hdrop⟩ :=
    hbuilt.reads_trees hchildren hleaves hmarker hinitial hdrop
  have hlength : pushed.length = item'.production.rhs.length := by
    rw [hproduction, Item.production_initial]
    simp [production, ← htrees, treesOf]
  have hreduces := hbuilt.reduces_of_isFinished hitem' (isFinished_of_drop hdrop) hlength
    (by rw [hproduction]; exact henter)
  rw [hproduction, htrees] at hreduces
  exact hreads.reduce hreduces

theorem readable_of_follows {tree : ParseTree} (h : tree.Follows grammar) : tables.Readable tree := by
  induction h with
  | leaf token =>
      intro stack tokens item hleaves hmarker hitem hnext
      obtain rfl : tokens = [token] := by
        obtain ⟨found, rfl, hfound⟩ := List.map_eq_singleton_iff.mp hleaves.symm
        rw [leaf_injective hfound]
      obtain ⟨state, henter⟩ := hbuilt.exists_enter?_iff.mpr
        ⟨by simp [Symbol.isEndMarker, hmarker token], item, hitem, hnext⟩
      refine ⟨state, henter, fun position input _ => ⟨token.position, ?_⟩⟩
      exact .single (.shift (enter?_terminal_iff.mp henter))
  | branch hoffers _ ih => exact hbuilt.reads_branch hoffers ih

-- The parser reads the tokens of a derivation and accepts it at the end marker.
theorem accepts_of_forest (hterm : grammar.Terminated start body) {trees : List ParseTree}
    (hforest : Forest grammar body tokens trees) (hmarker : ∀ token ∈ tokens, token.kind ≠ endMarker)
    {last : Token String} (hlast : last.kind = endMarker)
    (rest : List (Except LexicalError (Token String))) :
    ∃ stack position,
      tables.Reaches ⟨[], .start, tokens.map .ok ++ .ok last :: rest⟩
        ⟨stack, position, .ok last :: rest⟩ ∧
      tables.step ⟨stack, position, .ok last :: rest⟩ = .done (.ok (.branch start trees)) := by
  let first : Production := ⟨start, body ++ [.terminal endMarker]⟩
  have hdrop : first.rhs.drop (Item.initial first).cursor =
      trees.map symbol ++ [.terminal endMarker] := by
    simp [first, hforest.symbols_eq]
  have hitem : tables.HasItem (topState []) (.initial first) :=
    hbuilt.hasItem_zero (hbuilt.head?_productions hterm)
  obtain ⟨pushed, item, rfl, hreads, hitem, _, hdrop⟩ := hbuilt.reads_trees
    (fun tree htree => hbuilt.readable_of_follows (hforest.follows tree htree)) hforest.leaves_eq
    hmarker hitem hdrop
  obtain ⟨position, hreaches⟩ := hreads .start (.ok last :: rest) ⟨last, rest, rfl⟩
  rw [List.append_nil] at hreaches hitem
  have hnext : item.next? = some (.terminal endMarker) := by
    have hhead := congrArg List.head? hdrop
    rwa [List.head?_drop] at hhead
  refine ⟨pushed, position, hreaches, step_eq_ok_iff.mpr ⟨last, rest, rfl, ?_, ?_⟩⟩
  · exact hbuilt.action?_eq_accept_iff.mpr ⟨hlast, item, hitem, hnext⟩
  · rw [hbuilt.start_eq]
    rfl

end Built

end Handheld.Tables
