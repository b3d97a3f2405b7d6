import Handheld.Proofs.ShiftReduce.Settling
import Handheld.Proofs.ShiftReduce.StackPath

namespace Handheld

namespace ParseTree

-- Each inner node of the tree, with the symbols of the trees below it, is one of the productions.
inductive MadeOf (productions : List Production) : ParseTree → Prop
  | leaf (token : Token String) : MadeOf productions (leaf token)
  | branch {lhs : String} {children : List ParseTree} :
      ⟨lhs, children.map symbol⟩ ∈ productions → (∀ child ∈ children, MadeOf productions child) →
      MadeOf productions (branch lhs children)

end ParseTree

namespace Tables

open Automaton ParseTree

variable {grammar : Grammar} {start : String} {tables : Tables} {tokens : List (Token String)}
  {stack : List (Nat × ParseTree)}

namespace Built

variable (hbuilt : Built grammar start tables)

include hbuilt

-- A tree comes onto the stack where an item waits for it.
theorem reachable_of_path {tree : ParseTree} {lhs : String} (hpath : tables.Path stack)
    (htree : tree ∈ treesOf stack) (hlhs : tree.symbol = .nonterminal lhs) :
    grammar.Reachable start lhs := by
  induction hpath with
  | nil => simp at htree
  | cons _ henter ih =>
      rw [treesOf_cons, List.mem_append, List.mem_singleton] at htree
      rcases htree with hbelow | rfl
      · exact ih hbelow
      · obtain ⟨_, item, hitem, hnext⟩ := hbuilt.exists_enter?_iff.mp ⟨_, henter⟩
        obtain ⟨hreach, hoffers⟩ := hbuilt.mem_productions_iff.mp (hbuilt.production_mem hitem)
        exact .mention hreach hoffers (mem_rhs_of_next? (hlhs ▸ hnext))

-- The productions are the alternatives of all names that the start reaches, so a tree that follows the
-- grammar is made of them once its own name is reached.
theorem madeOf_of_follows {tree : ParseTree} (hfollows : tree.Follows grammar)
    (hreach : ∀ lhs, tree.symbol = .nonterminal lhs → grammar.Reachable start lhs) :
    tree.MadeOf tables.productions := by
  induction hfollows with
  | leaf token => exact .leaf token
  | @branch lhs children hoffers _ ih =>
      have hlhs : grammar.Reachable start lhs := hreach lhs rfl
      refine .branch (hbuilt.mem_productions_iff.mpr ⟨hlhs, hoffers⟩) fun child hchild => ?_
      refine ih child hchild fun name hname => .mention hlhs hoffers ?_
      exact hname ▸ List.mem_map_of_mem hchild

theorem madeOf_of_hasRead {tree : ParseTree} (hread : HasRead grammar tables tokens stack)
    (htree : tree ∈ treesOf stack) : tree.MadeOf tables.productions :=
  hbuilt.madeOf_of_follows (hread.forest.follows tree htree) fun _ hlhs =>
    hbuilt.reachable_of_path hread.path htree hlhs

end Built

-- The tokens before the first end marker of a stream that has one.
def StandBeforeMarker (tokens : List (Token String))
    (input : List (Except LexicalError (Token String))) : Prop :=
  ∃ last rest, input = tokens.map .ok ++ .ok last :: rest ∧ last.kind = endMarker ∧
    ∀ token ∈ tokens, token.kind ≠ endMarker

theorem Built.leaves_eq (hbuilt : Built grammar start tables)
    {input : List (Except LexicalError (Token String))} {tree : ParseTree}
    (h : tables.parse input = .ok tree) :
    ∃ tokens children, StandBeforeMarker tokens input ∧ tree = .branch start children ∧
      tree.leaves = tokens.map leaf ∧ ∀ child ∈ children, child.MadeOf tables.productions := by
  obtain ⟨⟨stack, position, _⟩, hreaches, hdone⟩ := exists_reaches_of_parse h
  obtain ⟨last, rest, rfl, haction, rfl⟩ := step_eq_ok_iff.mp hdone
  obtain ⟨tokens, hinput, hmarker, hread⟩ := HasRead.nil.of_reaches hbuilt hreaches
  obtain ⟨hlast, _⟩ := hbuilt.action?_eq_accept_iff.mp haction
  refine ⟨tokens, treesOf stack, ⟨last, rest, hinput, hlast, hmarker⟩, ?_, ?_, ?_⟩
  · rw [hbuilt.start_eq, treesOf]
  · exact hread.forest.leaves_eq
  · exact fun child hchild => hbuilt.madeOf_of_hasRead hread hchild

-- No token is lost, made up or moved: a tree that the parser returns has the tokens before the first end
-- marker for its leaves, and only productions for its inner nodes below the root. Nothing is asked of the
-- grammar, so it may have end markers anywhere.
theorem leaves_of_parse (hbuild : build grammar start = .ok tables)
    (input : List (Except LexicalError (Token String))) :
    (∀ tree, tables.parse input = .ok tree →
      ∃ tokens children, StandBeforeMarker tokens input ∧ tree = .branch start children ∧
        tree.leaves = tokens.map leaf ∧ ∀ child ∈ children, child.MadeOf tables.productions) ∧
    ((∀ token, .ok token ∈ input → token.kind ≠ endMarker) →
      ∀ tree, tables.parse input ≠ .ok tree) := by
  have hbuilt := built_of_build hbuild
  refine ⟨fun tree htree => hbuilt.leaves_eq htree, fun hnone tree htree => ?_⟩
  obtain ⟨tokens, _, ⟨last, rest, rfl, hlast, _⟩, _⟩ := hbuilt.leaves_eq htree
  exact hnone last (by simp) hlast

-- The start goes on after its end marker, which the parser never sees.
def cut : Grammar := .ofRules [("start",
  [[.nonterminal "front", .terminal endMarker, .terminal "mark"]]), ("front", [[.terminal "mark"]])]

def cutStream : List (Except LexicalError (Token String)) :=
  [⟨"mark", "|", .start⟩, ⟨endMarker, "", .start⟩, ⟨"mark", "|", .start⟩].map .ok

theorem leaves_of_parse_cut : ∃ tables tree, build cut "start" = .ok tables ∧
    tables.parse cutStream = .ok tree ∧ ∃ tokens children, StandBeforeMarker tokens cutStream ∧
      tree = .branch "start" children ∧ tree.leaves = tokens.map leaf ∧
        ∀ child ∈ children, child.MadeOf tables.productions := by
  have hparses : ((build cut "start").mapError (fun _ => .endless) >>= (·.parse cutStream)).isOk := by
    decide +kernel
  obtain ⟨tree, htree⟩ := exists_of_isOk hparses
  obtain ⟨tables, htables, hparse⟩ := bind_eq_ok_iff.mp htree
  have hbuild : build cut "start" = .ok tables := mapError_eq_ok_iff.mp htables
  exact ⟨tables, tree, hbuild, hparse, (leaves_of_parse hbuild cutStream).1 tree hparse⟩

end Tables

end Handheld
