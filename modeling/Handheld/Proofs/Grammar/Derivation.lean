import Handheld.Grammar.Numbering
import Handheld.ParseTree
import Mathlib.Logic.Relation

namespace Handheld

theorem Symbol.nonterminal?_eq_some_iff {symbol : Symbol} {name : String} :
    symbol.nonterminal? = some name ↔ symbol = .nonterminal name := by
  cases symbol <;> simp [nonterminal?]

namespace Grammar

def Offers (grammar : Grammar) (lhs : String) (rhs : List Symbol) : Prop :=
  ∃ alternatives, grammar.alternatives? lhs = some alternatives ∧ rhs ∈ alternatives

-- One nonterminal is replaced by one of its alternatives.
def Rewrites (grammar : Grammar) (before after : List Symbol) : Prop :=
  ∃ left lhs rhs right, grammar.Offers lhs rhs ∧
    before = left ++ .nonterminal lhs :: right ∧ after = left ++ rhs ++ right

def Derives (grammar : Grammar) : List Symbol → List Symbol → Prop :=
  Relation.ReflTransGen grammar.Rewrites

def terminals (kinds : List String) : List Symbol := kinds.map .terminal

inductive Reachable (grammar : Grammar) (start : String) : String → Prop
  | start : Reachable grammar start start
  | mention {lhs name : String} {rhs : List Symbol} : Reachable grammar start lhs →
      grammar.Offers lhs rhs → .nonterminal name ∈ rhs → Reachable grammar start name

def Productive (grammar : Grammar) (lhs : String) : Prop :=
  ∃ kinds, grammar.Derives [.nonterminal lhs] (terminals kinds)

-- The start has one alternative, some symbols and the end marker. The end marker stands nowhere else
-- in what can be reached from the start, and the start stands nowhere.
structure Terminated (grammar : Grammar) (start : String) (body : List Symbol) : Prop where
  rule : grammar.alternatives? start = some [body ++ [.terminal endMarker]]
  marker_notMem_body : .terminal endMarker ∉ body
  marker_notMem {lhs : String} {rhs : List Symbol} : grammar.Reachable start lhs → lhs ≠ start →
    grammar.Offers lhs rhs → .terminal endMarker ∉ rhs
  start_notMem {lhs : String} {rhs : List Symbol} : grammar.Reachable start lhs →
    grammar.Offers lhs rhs → .nonterminal start ∉ rhs

variable {grammar : Grammar}

theorem Terminated.offers_start_iff {start : String} {body rhs : List Symbol}
    (h : grammar.Terminated start body) :
    grammar.Offers start rhs ↔ rhs = body ++ [.terminal endMarker] := by
  simp [Offers, h.rule]

theorem mem_mentions_iff {lhs name : String} :
    name ∈ grammar.mentions lhs ↔ ∃ rhs, grammar.Offers lhs rhs ∧ .nonterminal name ∈ rhs := by
  unfold mentions Offers
  cases grammar.alternatives? lhs with
  | none => simp
  | some alternatives =>
      rw [Option.getD_some, List.mem_filterMap]
      simp only [List.mem_flatten, Symbol.nonterminal?_eq_some_iff, Option.some.injEq, exists_eq_left',
        exists_eq_right]

theorem Rewrites.append_left {before after : List Symbol} (h : grammar.Rewrites before after)
    (left : List Symbol) : grammar.Rewrites (left ++ before) (left ++ after) := by
  obtain ⟨inner, lhs, rhs, right, hoffer, rfl, rfl⟩ := h
  exact ⟨left ++ inner, lhs, rhs, right, hoffer, by simp, by simp⟩

theorem Rewrites.append_right {before after : List Symbol} (h : grammar.Rewrites before after)
    (right : List Symbol) : grammar.Rewrites (before ++ right) (after ++ right) := by
  obtain ⟨left, lhs, rhs, inner, hoffer, rfl, rfl⟩ := h
  exact ⟨left, lhs, rhs, inner ++ right, hoffer, by simp, by simp⟩

theorem Derives.trans {before middle after : List Symbol} (h : grammar.Derives before middle)
    (h' : grammar.Derives middle after) : grammar.Derives before after :=
  Relation.ReflTransGen.trans h h'

theorem Derives.append_left {before after : List Symbol} (h : grammar.Derives before after)
    (left : List Symbol) : grammar.Derives (left ++ before) (left ++ after) :=
  Relation.ReflTransGen.lift (left ++ ·) (fun _ _ => (Rewrites.append_left · left)) _ _ h

theorem Derives.append_right {before after : List Symbol} (h : grammar.Derives before after)
    (right : List Symbol) : grammar.Derives (before ++ right) (after ++ right) :=
  Relation.ReflTransGen.lift (· ++ right) (fun _ _ => (Rewrites.append_right · right)) _ _ h

theorem Derives.append {before after before' after' : List Symbol}
    (h : grammar.Derives before after) (h' : grammar.Derives before' after') :
    grammar.Derives (before ++ before') (after ++ after') :=
  (h.append_right before').trans (h'.append_left after)

theorem derives_of_offers {lhs : String} {rhs : List Symbol} (h : grammar.Offers lhs rhs) :
    grammar.Derives [.nonterminal lhs] rhs :=
  .single ⟨[], lhs, rhs, [], h, rfl, by simp⟩

-- A terminal is never rewritten, nor is anything moved before it.
theorem Derives.exists_of_terminal {kind : String} {symbols after : List Symbol}
    (h : grammar.Derives (.terminal kind :: symbols) after) :
    ∃ more, after = .terminal kind :: more ∧ grammar.Derives symbols more := by
  induction h with
  | refl => exact ⟨symbols, rfl, .refl⟩
  | tail _ hstep ih =>
      obtain ⟨more, rfl, hmore⟩ := ih
      obtain ⟨left, lhs, rhs, right, hoffers, hbefore, rfl⟩ := hstep
      cases left with
      | nil => simp at hbefore
      | cons first left =>
          obtain ⟨rfl, rfl⟩ := List.cons.inj hbefore
          exact ⟨left ++ rhs ++ right, by simp, hmore.tail ⟨left, lhs, rhs, right, hoffers, rfl, rfl⟩⟩

theorem Derives.isPrefix {kinds sentence : List String} {symbols : List Symbol}
    (h : grammar.Derives (terminals kinds ++ symbols) (terminals sentence)) : kinds <+: sentence := by
  induction kinds generalizing sentence with
  | nil => exact List.nil_prefix
  | cons kind kinds ih =>
      obtain ⟨more, hsentence, hmore⟩ := h.exists_of_terminal
      cases sentence with
      | nil => simp [terminals] at hsentence
      | cons first sentence =>
          obtain ⟨hfirst, rfl⟩ := List.cons.inj hsentence
          obtain rfl := Symbol.terminal.inj hfirst
          exact List.prefix_cons_inj _ |>.mpr (ih hmore)

-- Symbols come to a sentence together when each does by itself.
theorem productive_symbols {symbols : List Symbol}
    (h : ∀ name, .nonterminal name ∈ symbols → grammar.Productive name) :
    ∃ kinds, grammar.Derives symbols (terminals kinds) := by
  induction symbols with
  | nil => exact ⟨[], .refl⟩
  | cons symbol symbols ih =>
      obtain ⟨kinds, hkinds⟩ := ih fun name hname => h name (by simp [hname])
      cases symbol with
      | terminal name =>
          exact ⟨name :: kinds, hkinds.append_left [.terminal name]⟩
      | nonterminal name =>
          obtain ⟨first, hfirst⟩ := h name (by simp)
          refine ⟨first ++ kinds, ?_⟩
          simpa [terminals] using hfirst.append hkinds

end Grammar

namespace ParseTree

@[simp] theorem symbol_leaf (token : Token String) : (leaf token).symbol = .terminal token.kind := rfl

@[simp] theorem symbol_branch (lhs : String) (children : List ParseTree) :
    (branch lhs children).symbol = .nonterminal lhs := rfl

@[simp] theorem lexeme_leaf (token : Token String) : (leaf token).lexeme = token.lexeme := rfl

@[simp] theorem children_branch (lhs : String) (children : List ParseTree) :
    (branch lhs children).children = children := rfl

@[simp] theorem leaves_leaf (token : Token String) : (leaf token).leaves = [leaf token] := rfl

@[simp] theorem leaves_branch (lhs : String) (children : List ParseTree) :
    (branch lhs children).leaves = leavesOfAll children := rfl

@[simp] theorem leavesOfAll_nil : leavesOfAll [] = [] := rfl

@[simp] theorem leavesOfAll_cons (tree : ParseTree) (trees : List ParseTree) :
    leavesOfAll (tree :: trees) = tree.leaves ++ leavesOfAll trees := rfl

@[simp] theorem leavesOfAll_append (trees others : List ParseTree) :
    leavesOfAll (trees ++ others) = leavesOfAll trees ++ leavesOfAll others := by
  induction trees with
  | nil => rfl
  | cons tree trees ih => simp [ih]

theorem leavesOfAll_map_leaf (tokens : List (Token String)) :
    leavesOfAll (tokens.map leaf) = tokens.map leaf := by
  induction tokens with
  | nil => rfl
  | cons token tokens ih => simp [ih]

theorem leaf_injective : Function.Injective leaf := by
  rintro ⟨kind, lexeme, position⟩ ⟨kind', lexeme', position'⟩ h
  simpa [leaf] using h

-- Below each inner node of the tree stand the trees of one alternative of the grammar.
inductive Follows (grammar : Grammar) : ParseTree → Prop
  | leaf (token : Token String) : Follows grammar (leaf token)
  | branch {lhs : String} {children : List ParseTree} :
      grammar.Offers lhs (children.map symbol) → (∀ child ∈ children, Follows grammar child) →
      Follows grammar (branch lhs children)

end ParseTree

open ParseTree

-- Trees that derive some tokens from some symbols, tree by tree.
structure Forest (grammar : Grammar) (symbols : List Symbol) (tokens : List (Token String))
    (trees : List ParseTree) : Prop where
  symbols_eq : trees.map symbol = symbols
  follows : ∀ tree ∈ trees, tree.Follows grammar
  leaves_eq : leavesOfAll trees = tokens.map leaf

-- A derivation tree of some tokens: its root is named for the start and derives them from `body`.
def IsDerivation (grammar : Grammar) (start : String) (body : List Symbol)
    (tokens : List (Token String)) (tree : ParseTree) : Prop :=
  ∃ children, tree = .branch start children ∧ Forest grammar body tokens children

def kinds (tokens : List (Token String)) : List String := tokens.map Token.kind

variable {grammar : Grammar}

theorem Forest.append {symbols symbols' : List Symbol} {tokens tokens' : List (Token String)}
    {trees trees' : List ParseTree} (h : Forest grammar symbols tokens trees)
    (h' : Forest grammar symbols' tokens' trees') :
    Forest grammar (symbols ++ symbols') (tokens ++ tokens') (trees ++ trees') := by
  refine ⟨by simp [h.symbols_eq, h'.symbols_eq], ?_, by simp [h.leaves_eq, h'.leaves_eq]⟩
  intro tree htree
  exact (List.mem_append.mp htree).elim (h.follows tree) (h'.follows tree)

theorem forest_leaves (tokens : List (Token String)) :
    Forest grammar (Grammar.terminals (kinds tokens)) tokens (tokens.map leaf) := by
  refine ⟨by simp [Grammar.terminals, kinds, Function.comp_def], ?_, leavesOfAll_map_leaf tokens⟩
  intro tree htree
  obtain ⟨token, _, rfl⟩ := List.mem_map.mp htree
  exact .leaf token

-- A rewriting step backwards: the trees of the right-hand side get a node above them.
theorem Forest.of_rewrites {before after : List Symbol} {tokens : List (Token String)}
    {trees : List ParseTree} (hstep : grammar.Rewrites before after)
    (h : Forest grammar after tokens trees) : ∃ above, Forest grammar before tokens above := by
  obtain ⟨left, lhs, rhs, right, hoffer, rfl, rfl⟩ := hstep
  obtain ⟨front, back, rfl, hfront, hback⟩ := List.map_eq_append_iff.mp h.symbols_eq
  obtain ⟨before, children, rfl, hbefore, hchildren⟩ := List.map_eq_append_iff.mp hfront
  refine ⟨before ++ .branch lhs children :: back, ?_, ?_, ?_⟩
  · simp [hbefore, hback]
  · intro tree htree
    rcases List.mem_append.mp htree with hleft | hright
    · exact h.follows tree (by simp [hleft])
    · rcases List.mem_cons.mp hright with rfl | hback
      · exact .branch (hchildren ▸ hoffer) fun child hchild => h.follows child (by simp [hchild])
      · exact h.follows tree (by simp [hback])
  · simpa using h.leaves_eq

theorem exists_forest_of_derives {symbols : List Symbol} {tokens : List (Token String)}
    (h : grammar.Derives symbols (Grammar.terminals (kinds tokens))) :
    ∃ trees, Forest grammar symbols tokens trees := by
  induction h using Relation.ReflTransGen.head_induction_on with
  | refl => exact ⟨_, forest_leaves tokens⟩
  | head hstep _ ih =>
      obtain ⟨trees, htrees⟩ := ih
      exact htrees.of_rewrites hstep

theorem derives_leaves_of_all {trees : List ParseTree}
    (h : ∀ tree ∈ trees, grammar.Derives [tree.symbol] (tree.leaves.map symbol)) :
    grammar.Derives (trees.map symbol) ((leavesOfAll trees).map symbol) := by
  induction trees with
  | nil => exact .refl
  | cons tree trees ih =>
      have hrest := ih fun other hother => h other (by simp [hother])
      simpa using (h tree (by simp)).append hrest

theorem ParseTree.Follows.derives_leaves {tree : ParseTree} (h : tree.Follows grammar) :
    grammar.Derives [tree.symbol] (tree.leaves.map symbol) := by
  induction h with
  | leaf token => exact .refl
  | branch hoffer _ ih =>
      exact (Grammar.derives_of_offers hoffer).trans (derives_leaves_of_all ih)

-- Derivations and trees tell the same.
theorem derives_iff_exists_forest {symbols : List Symbol} {tokens : List (Token String)} :
    grammar.Derives symbols (Grammar.terminals (kinds tokens)) ↔
      ∃ trees, Forest grammar symbols tokens trees := by
  refine ⟨exists_forest_of_derives, ?_⟩
  rintro ⟨trees, h⟩
  have hderives := derives_leaves_of_all fun tree htree => (h.follows tree htree).derives_leaves
  rw [h.symbols_eq, h.leaves_eq] at hderives
  simpa [Grammar.terminals, kinds, Function.comp_def] using hderives

end Handheld
