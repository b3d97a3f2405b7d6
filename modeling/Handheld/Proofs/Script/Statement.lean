import Handheld.Proofs.Data.Except
import Handheld.Proofs.Expr.Faults
import Handheld.Proofs.Script.Vocabulary
import Handheld.Proofs.Script.Writing

namespace Handheld

namespace ParseTree

variable {grammar : Grammar} {tree : ParseTree}

theorem Follows.exists_leaf (h : tree.Follows grammar) {kind : String}
    (hsymbol : tree.symbol = .terminal kind) : ∃ token, tree = .leaf token ∧ token.kind = kind := by
  cases h with
  | leaf token => exact ⟨token, rfl, by simpa using hsymbol⟩
  | branch => simp at hsymbol

theorem Follows.exists_branch (h : tree.Follows grammar) {lhs : String}
    (hsymbol : tree.symbol = .nonterminal lhs) : ∃ children, tree = .branch lhs children ∧
      grammar.Offers lhs (children.map symbol) ∧ ∀ child ∈ children, child.Follows grammar := by
  cases h with
  | leaf => simp at hsymbol
  | branch hoffers hchildren =>
      obtain rfl := by simpa using hsymbol
      exact ⟨_, rfl, hoffers, hchildren⟩

def token? : ParseTree → Option (Token String)
  | node (.terminal kind) (some lexeme) (some position) _ => some ⟨kind, lexeme, position⟩
  | _ => none

-- The tokens of the leaves, from left to right.
def tokens (tree : ParseTree) : List (Token String) := tree.leaves.filterMap token?

@[simp] theorem tokens_leaf (token : Token String) : (leaf token).tokens = [token] := rfl

theorem filterMap_leavesOfAll (trees : List ParseTree) :
    (leavesOfAll trees).filterMap token? = trees.flatMap tokens := by
  induction trees with
  | nil => rfl
  | cons tree trees ih => rw [leavesOfAll_cons, List.filterMap_append, ih, List.flatMap_cons, tokens]

@[simp] theorem tokens_branch (lhs : String) (children : List ParseTree) :
    (branch lhs children).tokens = children.flatMap tokens :=
  filterMap_leavesOfAll children

theorem tokens_subset {lhs : String} {child : ParseTree} {children : List ParseTree}
    (h : child ∈ children) : child.tokens ⊆ (branch lhs children).tokens := by
  intro token htoken
  rw [tokens_branch]
  exact List.mem_flatMap_of_mem h htoken

end ParseTree

namespace Script

open ParseTree

variable {α β γ : Type} {tree : ParseTree} {tokens tokens' : List (Token String)} {P Q : α → Prop}

-- One of some tokens is an expression whose text is none, and the error says so.
def IsExpressionError (tokens : List (Token String)) (error : TreeError) : Prop :=
  ∃ token ∈ tokens, token.kind = "single-expression" ∧ ∃ fault,
    Expression.read token.lexeme = .error ⟨fault, token.lexeme⟩ ∧
      error = .expression ⟨fault, token.lexeme⟩ (some token.position)

-- What is read off some tokens: something with a property, unless one of them is no expression.
inductive Yields (tokens : List (Token String)) (P : α → Prop) : OfTree α → Prop
  | ok {a : α} : P a → Yields tokens P (.ok a)
  | error {error : TreeError} : IsExpressionError tokens error → Yields tokens P (.error error)

-- A tree is read as what its tokens write.
abbrev ReadsAs (writes : List (Token String) → α → Prop) (tree : ParseTree) (result : OfTree α) : Prop :=
  Yields tree.tokens (writes tree.tokens) result

theorem Yields.imp {x : OfTree α} (h : Yields tokens P x) (himp : ∀ a, P a → Q a) :
    Yields tokens Q x := by
  cases h with
  | ok ha => exact .ok (himp _ ha)
  | error herror => exact .error herror

theorem Yields.mono {x : OfTree α} (h : Yields tokens P x) (hsub : tokens ⊆ tokens') :
    Yields tokens' P x := by
  cases h with
  | ok ha => exact .ok ha
  | error herror =>
      obtain ⟨token, hmem, hrest⟩ := herror
      exact .error ⟨token, hsub hmem, hrest⟩

theorem Yields.bind {x : OfTree α} {f : α → OfTree β} {R : β → Prop} (h : Yields tokens P x)
    (hf : ∀ a, P a → Yields tokens R (f a)) : Yields tokens R (x >>= f) := by
  cases h with
  | ok ha => exact hf _ ha
  | error herror => exact .error herror

theorem readsAs_only {writes : List (Token String) → α → Prop} {lhs : String} {child : ParseTree}
    {result : OfTree α} : ReadsAs writes (.branch lhs [child]) result ↔ ReadsAs writes child result := by
  simp [ReadsAs]

-- A tree of the grammar with the texts that its tokens have in a script.
structure Fits (tree : ParseTree) : Prop where
  follows : tree.Follows grammar
  wellspelled : ∀ token ∈ tree.tokens, Wellspelled token

theorem Fits.exists_leaf (h : Fits tree) {kind : String} (hsymbol : tree.symbol = token kind) :
    ∃ token, tree = .leaf token ∧ token.kind = kind ∧ Wellspelled token := by
  obtain ⟨token, rfl, hkind⟩ := h.follows.exists_leaf hsymbol
  exact ⟨token, rfl, hkind, h.wellspelled token (by simp)⟩

theorem Fits.exists_branch (h : Fits tree) {name : String} (hsymbol : tree.symbol = rule name)
    {alternatives : List (List Symbol)} (hrule : grammar.alternatives? name = some alternatives) :
    ∃ children, tree = .branch name children ∧ children.map symbol ∈ alternatives ∧
      ∀ child ∈ children, Fits child ∧ child.tokens ⊆ tree.tokens := by
  obtain ⟨children, rfl, ⟨offered, hoffered, hmem⟩, hchildren⟩ := h.follows.exists_branch hsymbol
  obtain rfl := Option.some.inj (hoffered.symm.trans hrule)
  refine ⟨children, rfl, hmem, fun child hchild => ?_⟩
  have hsub : child.tokens ⊆ (branch name children).tokens := tokens_subset hchild
  exact ⟨⟨hchildren child hchild, fun token htoken => h.wellspelled token (hsub htoken)⟩, hsub⟩

-- The trees of a block: only what is inside the braces is not yet a token.
theorem exists_braced {children : List ParseTree} {body : String}
    (hmap : children.map symbol = braced body) (hall : ∀ child ∈ children, Fits child) :
    ∃ opening newline inner newline' closing,
      children = [.leaf opening, .leaf newline, inner, .leaf newline', .leaf closing] ∧
        kinds [opening, newline] = ["left-brace", "newline"] ∧ inner.symbol = rule body ∧
          kinds [newline', closing] = ["newline", "right-brace"] := by
  obtain ⟨opening, rest, rfl, hopening, hmap⟩ := List.map_eq_cons_iff.mp hmap
  obtain ⟨newline, rest, rfl, hnewline, hmap⟩ := List.map_eq_cons_iff.mp hmap
  obtain ⟨inner, rest, rfl, hinner, hmap⟩ := List.map_eq_cons_iff.mp hmap
  obtain ⟨newline', rest, rfl, hnewline', hmap⟩ := List.map_eq_cons_iff.mp hmap
  obtain ⟨closing, rfl, hclosing⟩ := List.map_eq_singleton_iff.mp hmap
  obtain ⟨opening, rfl, hopening, _⟩ := (hall opening (by simp)).exists_leaf hopening
  obtain ⟨newline, rfl, hnewline, _⟩ := (hall newline (by simp)).exists_leaf hnewline
  obtain ⟨newline', rfl, hnewline', _⟩ := (hall newline' (by simp)).exists_leaf hnewline'
  obtain ⟨closing, rfl, hclosing, _⟩ := (hall closing (by simp)).exists_leaf hclosing
  exact ⟨opening, newline, inner, newline', closing, rfl, by simp [kinds, hopening, hnewline], hinner,
    by simp [kinds, hnewline', hclosing]⟩

theorem expect_eq_ok {tag : String} (h : tree.symbol.name = tag) : expect tag tree = .ok () :=
  if_pos h

theorem expect_leaf {tag : String} {token : Token String} (h : token.kind = tag) :
    expect tag (.leaf token) = .ok () :=
  if_pos h

theorem textOf_leaf {tag : String} {token : Token String} (h : token.kind = tag) :
    textOf tag (.leaf token) = .ok token.lexeme := by
  rw [textOf, expect_leaf h]
  rfl

theorem yields_singleExpression {text : Token String} (hkind : text.kind = "single-expression")
    (hmem : text ∈ tokens) :
    Yields tokens (Expression.read text.lexeme = .ok ·) (singleExpression (.leaf text)) := by
  rw [singleExpression, expect_leaf hkind]
  change Yields _ _ ((Expression.read text.lexeme).mapError _)
  cases hread : Expression.read text.lexeme with
  | ok value => exact .ok rfl
  | error error =>
      obtain ⟨hexpression, _⟩ := Expression.eq_of_read_error hread
      obtain ⟨fault, expression⟩ := error
      obtain rfl := hexpression
      exact .error ⟨text, hmem, hkind, fault, hread, rfl⟩

theorem expression_single (single : ParseTree) :
    expression (.branch "expression" [single]) = singleExpression single := rfl

theorem expression_random (word first second : ParseTree) :
    expression (.branch "expression" [word, first, second]) =
      singleExpression first >>= fun first => singleExpression second >>= fun second =>
        pure (.random first second) := rfl

theorem readsAs_expression (h : Fits tree) (hsymbol : tree.symbol = rule "expression") :
    ReadsAs WritesExpression tree (expression tree) := by
  obtain ⟨children, rfl, hmem, hchildren⟩ := h.exists_branch hsymbol rfl
  rcases List.mem_pair.mp hmem with hmap | hmap
  · obtain ⟨text, rfl, htext⟩ := List.map_eq_singleton_iff.mp hmap
    obtain ⟨text, rfl, hkind, _⟩ := (hchildren text (by simp)).1.exists_leaf htext
    rw [expression_single]
    exact (yields_singleExpression hkind (by simp)).imp fun value hread => .single hkind hread
  · obtain ⟨word, rest, rfl, hword, hmap⟩ := List.map_eq_cons_iff.mp hmap
    obtain ⟨first, rest, rfl, hfirst, hmap⟩ := List.map_eq_cons_iff.mp hmap
    obtain ⟨second, rfl, hsecond⟩ := List.map_eq_singleton_iff.mp hmap
    obtain ⟨word, rfl, hword, _⟩ := (hchildren word (by simp)).1.exists_leaf hword
    obtain ⟨first, rfl, hfirst, _⟩ := (hchildren first (by simp)).1.exists_leaf hfirst
    obtain ⟨second, rfl, hsecond, _⟩ := (hchildren second (by simp)).1.exists_leaf hsecond
    rw [expression_random]
    refine (yields_singleExpression hfirst (by simp)).bind fun _ hread => ?_
    refine (yields_singleExpression hsecond (by simp)).bind fun _ hread' => ?_
    exact .ok (.random (by simp [kinds, hword, hfirst, hsecond]) hread hread')

-- A tree that the grammar makes an item of a list.
structure IsItem (item : String) (tokens : List (Token String)) (tree : ParseTree) : Prop where
  fits : Fits tree
  symbol_eq : tree.symbol = rule item
  tokens_eq : tree.tokens = tokens

theorem yields_listItems {list item : String}
    (hrule : grammar.alternatives? list = some (lines list item)) (h : Fits tree)
    (hsymbol : tree.symbol = rule list) :
    Yields tokens (Lines (IsItem item) tree.tokens) (listItems list tree) := by
  obtain ⟨hfollows, hspelled⟩ := h
  induction hfollows with
  | leaf => simp [rule] at hsymbol
  | @branch lhs children hoffers hchildren ih =>
      have hfits : Fits (branch lhs children) := ⟨.branch hoffers hchildren, hspelled⟩
      obtain ⟨_, heq, hmem, hinside⟩ := hfits.exists_branch hsymbol hrule
      obtain ⟨rfl, rfl⟩ : lhs = list ∧ children = _ := by simpa [branch] using heq
      rcases List.mem_pair.mp hmem with hmap | hmap
      · obtain ⟨before, rest, rfl, hbefore, hmap⟩ := List.map_eq_cons_iff.mp hmap
        obtain ⟨newline, rest, rfl, hnewline, hmap⟩ := List.map_eq_cons_iff.mp hmap
        obtain ⟨last, rfl, hlast⟩ := List.map_eq_singleton_iff.mp hmap
        obtain ⟨newline, rfl, hnewline, _⟩ := (hinside newline (by simp)).1.exists_leaf hnewline
        have hitems := ih before (by simp) hbefore (hinside before (by simp)).1.wellspelled
        have hitem : IsItem item last.tokens last := ⟨(hinside last (by simp)).1, hlast, rfl⟩
        have hlist : listItems lhs (.branch lhs [before, .leaf newline, last]) =
            listItems lhs before >>= fun items => pure (items ++ [last]) := by
          simp [listItems, branch, Symbol.name]
        rw [hlist]
        refine hitems.bind fun items hlines => .ok ?_
        simpa using hlines.concat hnewline hitem
      · obtain ⟨only, rfl, honly⟩ := List.map_eq_singleton_iff.mp hmap
        have hitem : IsItem item only.tokens only := ⟨(hinside only (by simp)).1, honly, rfl⟩
        have hlist : listItems lhs (.branch lhs [only]) = .ok [only] := by
          simp [listItems, branch, Symbol.name]
        rw [hlist]
        exact .ok (by simpa using Lines.only hitem)

-- Items are read one after the other, each with what the earlier ones have made.
theorem yields_foldlM {f : β → ParseTree → OfTree β} {item : String} {items : List ParseTree}
    {writes : List (Token String) → γ → Prop} {Invariant : List γ → β → Prop}
    (hstep : ∀ {earlier b found}, Invariant earlier b → Fits found → found.symbol = rule item →
      Yields found.tokens (fun b' => ∃ c, writes found.tokens c ∧ Invariant (earlier ++ [c]) b') (f b found))
    (h : Lines (IsItem item) tokens items) {earlier : List γ} {b : β} (hinit : Invariant earlier b) :
    Yields tokens (fun b' => ∃ made, Lines writes tokens made ∧ Invariant (earlier ++ made) b')
      (items.foldlM f b) := by
  induction h generalizing earlier b with
  | only hitem =>
      obtain ⟨hfits, hsymbol, rfl⟩ := hitem
      rw [List.foldlM_cons]
      refine (hstep hinit hfits hsymbol).bind fun b' hmade => ?_
      obtain ⟨c, hwrites, hnext⟩ := hmade
      exact .ok ⟨[c], .only hwrites, hnext⟩
  | more hitem hnewline _ ih =>
      obtain ⟨hfits, hsymbol, rfl⟩ := hitem
      rw [List.foldlM_cons]
      refine ((hstep hinit hfits hsymbol).mono (List.subset_append_left _ _)).bind fun b' hmade => ?_
      obtain ⟨c, hwrites, hnext⟩ := hmade
      refine ((ih hnext).mono (by simp)).imp fun b'' hrest => ?_
      obtain ⟨made, hlines, hend⟩ := hrest
      exact ⟨c :: made, .more hwrites hnewline hlines, by simpa using hend⟩

-- The rules of statements, and the lists of statements with the rules of their items.
def statementRules : List String :=
  ["variable-update-stmt", "screen-update-stmt", "goto-stmt", "selection-stmt", "if-stmt",
    "if-not-stmt"]

def bodies : List (String × String) :=
  [("inif-stmts", "inif-stmt"), ("inhandler-stmts", "inhandler-stmt")]

structure Lowers (tree : ParseTree) : Prop where
  statement {name : String} : name ∈ statementRules → tree.symbol = rule name →
    ReadsAs WritesStatement tree (statement tree)
  statements {list item : String} : (list, item) ∈ bodies → tree.symbol = rule list →
    ReadsAs (Lines WritesStatement) tree (statements list item tree)
  wrapped {list item : String} : (list, item) ∈ bodies → tree.symbol = rule item →
    ReadsAs WritesStatement tree (wrappedStatement item tree)

theorem alternatives?_of_mem_bodies {list item : String} (h : (list, item) ∈ bodies) :
    grammar.alternatives? list = some (lines list item) ∧
      grammar.alternatives? item = some simpleStatements := by
  rcases List.mem_pair.mp h with heq | heq <;> obtain ⟨rfl, rfl⟩ := Prod.mk.inj heq <;>
    exact ⟨rfl, rfl⟩

theorem exists_rule_of_mem_simpleStatements {symbols : List Symbol} (h : symbols ∈ simpleStatements) :
    ∃ name ∈ statementRules, symbols = [rule name] := by
  simp only [simpleStatements, List.mem_cons, List.not_mem_nil, or_false] at h
  rcases h with rfl | rfl | rfl | rfl <;> exact ⟨_, by decide, rfl⟩

theorem statement_assign (name sign value : ParseTree) :
    statement (.branch "variable-update-stmt" [name, sign, value]) =
      textOf "variable" name >>= fun name => expression value >>= fun value =>
        pure (.assign name value) := rfl

theorem readsAs_assign (h : Fits tree) (hsymbol : tree.symbol = rule "variable-update-stmt") :
    ReadsAs WritesStatement tree (statement tree) := by
  obtain ⟨children, rfl, hmem, hchildren⟩ := h.exists_branch hsymbol rfl
  have hmap := List.mem_singleton.mp hmem
  obtain ⟨name, rest, rfl, hname, hmap⟩ := List.map_eq_cons_iff.mp hmap
  obtain ⟨sign, rest, rfl, hsign, hmap⟩ := List.map_eq_cons_iff.mp hmap
  obtain ⟨value, rfl, hvalue⟩ := List.map_eq_singleton_iff.mp hmap
  obtain ⟨name, rfl, hname, _⟩ := (hchildren name (by simp)).1.exists_leaf hname
  obtain ⟨sign, rfl, hsign, _⟩ := (hchildren sign (by simp)).1.exists_leaf hsign
  obtain ⟨hfits, hsub⟩ := hchildren value (by simp)
  rw [statement_assign, textOf_leaf hname]
  refine ((readsAs_expression hfits hvalue).mono hsub).bind fun found hfound => .ok ?_
  have hkinds : kinds [name, sign] = ["variable", "assignment-op"] := by simp [kinds, hname, hsign]
  simpa using WritesStatement.assign hkinds hfound

theorem statement_clear (word : ParseTree) :
    statement (.branch "screen-update-stmt" [word]) =
      expect "clear-screen" word >>= fun _ => pure .clear := rfl

theorem statement_display (word shape sign opening x comma y closing : ParseTree) :
    statement (.branch "screen-update-stmt" [word, shape, sign, opening, x, comma, y, closing]) =
      textOf "shape-name" shape >>= fun shape => expression x >>= fun x => expression y >>= fun y =>
        pure (.display shape x y) := rfl

theorem readsAs_screenUpdate (h : Fits tree) (hsymbol : tree.symbol = rule "screen-update-stmt") :
    ReadsAs WritesStatement tree (statement tree) := by
  obtain ⟨children, rfl, hmem, hchildren⟩ := h.exists_branch hsymbol rfl
  rcases List.mem_pair.mp hmem with hmap | hmap
  · obtain ⟨word, rfl, hword⟩ := List.map_eq_singleton_iff.mp hmap
    obtain ⟨word, rfl, hword, _⟩ := (hchildren word (by simp)).1.exists_leaf hword
    rw [statement_clear, expect_leaf hword]
    exact .ok (.clear hword)
  · obtain ⟨word, rest, rfl, hword, hmap⟩ := List.map_eq_cons_iff.mp hmap
    obtain ⟨shape, rest, rfl, hshape, hmap⟩ := List.map_eq_cons_iff.mp hmap
    obtain ⟨sign, rest, rfl, hsign, hmap⟩ := List.map_eq_cons_iff.mp hmap
    obtain ⟨opening, rest, rfl, hopening, hmap⟩ := List.map_eq_cons_iff.mp hmap
    obtain ⟨x, rest, rfl, hx, hmap⟩ := List.map_eq_cons_iff.mp hmap
    obtain ⟨comma, rest, rfl, hcomma, hmap⟩ := List.map_eq_cons_iff.mp hmap
    obtain ⟨y, rest, rfl, hy, hmap⟩ := List.map_eq_cons_iff.mp hmap
    obtain ⟨closing, rfl, hclosing⟩ := List.map_eq_singleton_iff.mp hmap
    obtain ⟨word, rfl, hword, _⟩ := (hchildren word (by simp)).1.exists_leaf hword
    obtain ⟨shape, rfl, hshape, _⟩ := (hchildren shape (by simp)).1.exists_leaf hshape
    obtain ⟨sign, rfl, hsign, _⟩ := (hchildren sign (by simp)).1.exists_leaf hsign
    obtain ⟨opening, rfl, hopening, _⟩ := (hchildren opening (by simp)).1.exists_leaf hopening
    obtain ⟨comma, rfl, hcomma, _⟩ := (hchildren comma (by simp)).1.exists_leaf hcomma
    obtain ⟨closing, rfl, hclosing, _⟩ := (hchildren closing (by simp)).1.exists_leaf hclosing
    obtain ⟨hfits, hsub⟩ := hchildren x (by simp)
    obtain ⟨hfits', hsub'⟩ := hchildren y (by simp)
    rw [statement_display, textOf_leaf hshape]
    refine ((readsAs_expression hfits hx).mono hsub).bind fun left hleft => ?_
    refine ((readsAs_expression hfits' hy).mono hsub').bind fun right hright => .ok ?_
    have hkinds : kinds [word, shape, sign, opening] =
        ["display-shape", "shape-name", "coordinate-op", "left-paren"] := by
      simp [kinds, hword, hshape, hsign, hopening]
    simpa using WritesStatement.display hkinds hleft hcomma hright hclosing

theorem statement_goto (word state : ParseTree) :
    statement (.branch "goto-stmt" [word, state]) =
      textOf "state-name" state >>= fun state => pure (.goto state) := rfl

theorem readsAs_goto (h : Fits tree) (hsymbol : tree.symbol = rule "goto-stmt") :
    ReadsAs WritesStatement tree (statement tree) := by
  obtain ⟨children, rfl, hmem, hchildren⟩ := h.exists_branch hsymbol rfl
  have hmap := List.mem_singleton.mp hmem
  obtain ⟨word, rest, rfl, hword, hmap⟩ := List.map_eq_cons_iff.mp hmap
  obtain ⟨state, rfl, hstate⟩ := List.map_eq_singleton_iff.mp hmap
  obtain ⟨word, rfl, hword, _⟩ := (hchildren word (by simp)).1.exists_leaf hword
  obtain ⟨state, rfl, hstate, _⟩ := (hchildren state (by simp)).1.exists_leaf hstate
  rw [statement_goto, textOf_leaf hstate]
  exact .ok (.goto (by simp [kinds, hword, hstate]))

theorem statement_selection (selection : ParseTree) :
    statement (.branch "selection-stmt" [selection]) = statement selection := rfl

theorem readsAs_selection (h : Fits tree) (hsymbol : tree.symbol = rule "selection-stmt")
    (hlowers : ∀ child ∈ tree.children, Lowers child) :
    ReadsAs WritesStatement tree (statement tree) := by
  obtain ⟨children, rfl, hmem, _⟩ := h.exists_branch hsymbol rfl
  obtain ⟨name, hname, hmap⟩ : ∃ name ∈ statementRules, children.map symbol = [rule name] := by
    rcases List.mem_pair.mp hmem with hmap | hmap
    · exact ⟨"if-stmt", by decide, hmap⟩
    · exact ⟨"if-not-stmt", by decide, hmap⟩
  obtain ⟨selection, rfl, hselection⟩ := List.map_eq_singleton_iff.mp hmap
  rw [statement_selection, readsAs_only]
  exact (hlowers selection (by simp)).statement hname hselection

-- A condition and a block are read off their own tokens, whatever is made of them.
theorem yields_conditional {condition body : ParseTree} {made : Expression → List Statement → Statement}
    (hcondition : Fits condition) (hexpression : condition.symbol = rule "expression")
    (hbody : Fits body) (hlist : body.symbol = rule "inif-stmts") (hlower : Lowers body)
    (hsub : condition.tokens ⊆ tokens) (hsub' : body.tokens ⊆ tokens) :
    Yields tokens (fun found => ∃ asked block, found = made asked block ∧
        WritesExpression condition.tokens asked ∧ Lines WritesStatement body.tokens block)
      (expression condition >>= fun condition => listItems "inif-stmts" body >>= fun _ =>
        statements "inif-stmts" "inif-stmt" body >>= fun body => pure (made condition body)) := by
  refine ((readsAs_expression hcondition hexpression).mono hsub).bind fun asked hasked => ?_
  refine (yields_listItems rfl hbody hlist).bind fun _ _ => ?_
  refine ((hlower.statements (by decide) hlist).mono hsub').bind fun block hblock => .ok ?_
  exact ⟨asked, block, rfl, hasked, hblock⟩

theorem statement_ifTrue (word condition opening newline body newline' closing : ParseTree) :
    statement (.branch "if-stmt" [word, condition, opening, newline, body, newline', closing]) =
      expression condition >>= fun condition => listItems "inif-stmts" body >>= fun _ =>
        statements "inif-stmts" "inif-stmt" body >>= fun body => pure (.ifTrue condition body) := rfl

theorem readsAs_ifTrue (h : Fits tree) (hsymbol : tree.symbol = rule "if-stmt")
    (hlowers : ∀ child ∈ tree.children, Lowers child) :
    ReadsAs WritesStatement tree (statement tree) := by
  obtain ⟨children, rfl, hmem, hchildren⟩ := h.exists_branch hsymbol rfl
  have hmap := List.mem_singleton.mp hmem
  obtain ⟨word, rest, rfl, hword, hmap⟩ := List.map_eq_cons_iff.mp hmap
  obtain ⟨condition, rest, rfl, hcondition, hbraced⟩ := List.map_eq_cons_iff.mp hmap
  obtain ⟨word, rfl, hword, _⟩ := (hchildren word (by simp)).1.exists_leaf hword
  obtain ⟨opening, newline, body, newline', closing, rfl, hopening, hbody, hclosing⟩ :=
    exists_braced hbraced fun child hchild => (hchildren child (by simp [hchild])).1
  obtain ⟨hfits, hsub⟩ := hchildren condition (by simp)
  obtain ⟨hfits', hsub'⟩ := hchildren body (by simp)
  have hlower : Lowers body := hlowers body (by simp)
  rw [statement_ifTrue]
  refine (yields_conditional hfits hcondition hfits' hbody hlower hsub hsub').imp fun found hfound => ?_
  obtain ⟨asked, block, rfl, hasked, hblock⟩ := hfound
  simpa using WritesStatement.ifTrue hword hasked (.mk hopening hblock hclosing)

theorem statement_ifFalse (word negation condition opening newline body newline' closing : ParseTree) :
    statement (.branch "if-not-stmt"
        [word, negation, condition, opening, newline, body, newline', closing]) =
      expression condition >>= fun condition => listItems "inif-stmts" body >>= fun _ =>
        statements "inif-stmts" "inif-stmt" body >>= fun body => pure (.ifFalse condition body) := rfl

theorem readsAs_ifFalse (h : Fits tree) (hsymbol : tree.symbol = rule "if-not-stmt")
    (hlowers : ∀ child ∈ tree.children, Lowers child) :
    ReadsAs WritesStatement tree (statement tree) := by
  obtain ⟨children, rfl, hmem, hchildren⟩ := h.exists_branch hsymbol rfl
  have hmap := List.mem_singleton.mp hmem
  obtain ⟨word, rest, rfl, hword, hmap⟩ := List.map_eq_cons_iff.mp hmap
  obtain ⟨negation, rest, rfl, hnegation, hmap⟩ := List.map_eq_cons_iff.mp hmap
  obtain ⟨condition, rest, rfl, hcondition, hbraced⟩ := List.map_eq_cons_iff.mp hmap
  obtain ⟨word, rfl, hword, _⟩ := (hchildren word (by simp)).1.exists_leaf hword
  obtain ⟨negation, rfl, hnegation, _⟩ := (hchildren negation (by simp)).1.exists_leaf hnegation
  obtain ⟨opening, newline, body, newline', closing, rfl, hopening, hbody, hclosing⟩ :=
    exists_braced hbraced fun child hchild => (hchildren child (by simp [hchild])).1
  obtain ⟨hfits, hsub⟩ := hchildren condition (by simp)
  obtain ⟨hfits', hsub'⟩ := hchildren body (by simp)
  have hlower : Lowers body := hlowers body (by simp)
  rw [statement_ifFalse]
  refine (yields_conditional hfits hcondition hfits' hbody hlower hsub hsub').imp fun found hfound => ?_
  obtain ⟨asked, block, rfl, hasked, hblock⟩ := hfound
  have hkinds : kinds [word, negation] = ["if", "not"] := by simp [kinds, hword, hnegation]
  simpa using WritesStatement.ifFalse hkinds hasked (.mk hopening hblock hclosing)

theorem statements_more (list item lhs : String) (before newline last : ParseTree) :
    statements list item (.branch lhs [before, newline, last]) =
      statements list item before >>= fun earlier => wrappedStatement item last >>= fun latest =>
        pure (earlier ++ [latest]) := rfl

theorem statements_only (list item lhs : String) (only : ParseTree) :
    statements list item (.branch lhs [only]) =
      wrappedStatement item only >>= fun latest => pure [latest] := rfl

theorem readsAs_statements {list item : String} (hbody : (list, item) ∈ bodies) (h : Fits tree)
    (hsymbol : tree.symbol = rule list) (hlowers : ∀ child ∈ tree.children, Lowers child) :
    ReadsAs (Lines WritesStatement) tree (statements list item tree) := by
  obtain ⟨children, rfl, hmem, hchildren⟩ :=
    h.exists_branch hsymbol (alternatives?_of_mem_bodies hbody).1
  rcases List.mem_pair.mp hmem with hmap | hmap
  · obtain ⟨before, rest, rfl, hbefore, hmap⟩ := List.map_eq_cons_iff.mp hmap
    obtain ⟨newline, rest, rfl, hnewline, hmap⟩ := List.map_eq_cons_iff.mp hmap
    obtain ⟨last, rfl, hlast⟩ := List.map_eq_singleton_iff.mp hmap
    obtain ⟨newline, rfl, hnewline, _⟩ := (hchildren newline (by simp)).1.exists_leaf hnewline
    obtain ⟨_, hsub⟩ := hchildren before (by simp)
    obtain ⟨_, hsub'⟩ := hchildren last (by simp)
    have hlower : Lowers before := hlowers before (by simp)
    have hlower' : Lowers last := hlowers last (by simp)
    rw [statements_more]
    refine ((hlower.statements hbody hbefore).mono hsub).bind fun earlier hearlier => ?_
    refine ((hlower'.wrapped hbody hlast).mono hsub').bind fun latest hlatest => .ok ?_
    simpa using hearlier.concat hnewline hlatest
  · obtain ⟨only, rfl, honly⟩ := List.map_eq_singleton_iff.mp hmap
    obtain ⟨_, hsub⟩ := hchildren only (by simp)
    have hlower : Lowers only := hlowers only (by simp)
    rw [statements_only]
    refine ((hlower.wrapped hbody honly).mono hsub).bind fun latest hlatest => .ok ?_
    simpa using Lines.only hlatest

theorem wrappedStatement_branch (item : String) (child : ParseTree) :
    wrappedStatement item (.branch item [child]) = statement child :=
  if_pos rfl

theorem readsAs_wrappedStatement {list item : String} (hbody : (list, item) ∈ bodies) (h : Fits tree)
    (hsymbol : tree.symbol = rule item) (hlowers : ∀ child ∈ tree.children, Lowers child) :
    ReadsAs WritesStatement tree (wrappedStatement item tree) := by
  obtain ⟨children, rfl, hmem, _⟩ := h.exists_branch hsymbol (alternatives?_of_mem_bodies hbody).2
  obtain ⟨name, hname, hmap⟩ := exists_rule_of_mem_simpleStatements hmem
  obtain ⟨child, rfl, hchild⟩ := List.map_eq_singleton_iff.mp hmap
  rw [wrappedStatement_branch, readsAs_only]
  exact (hlowers child (by simp)).statement hname hchild

-- Statements are read branch by branch, and each branch asks of its children what the rules of the
-- grammar give them.
theorem Fits.lowers (h : Fits tree) : Lowers tree := by
  obtain ⟨hfollows, hspelled⟩ := h
  induction hfollows with
  | leaf token => exact ⟨by simp [rule], by simp [rule], by simp [rule]⟩
  | @branch lhs children hoffers hchildren ih =>
      have hfits : Fits (branch lhs children) := ⟨.branch hoffers hchildren, hspelled⟩
      have hlowers : ∀ child ∈ (branch lhs children).children, Lowers child :=
        fun child hchild => ih child hchild fun token htoken =>
          hspelled token (tokens_subset hchild htoken)
      refine ⟨?_, ?_, ?_⟩
      · intro name hname hsymbol
        simp only [statementRules, List.mem_cons, List.not_mem_nil, or_false] at hname
        rcases hname with rfl | rfl | rfl | rfl | rfl | rfl
        · exact readsAs_assign hfits hsymbol
        · exact readsAs_screenUpdate hfits hsymbol
        · exact readsAs_goto hfits hsymbol
        · exact readsAs_selection hfits hsymbol hlowers
        · exact readsAs_ifTrue hfits hsymbol hlowers
        · exact readsAs_ifFalse hfits hsymbol hlowers
      · intro list item hbody hsymbol
        exact readsAs_statements hbody hfits hsymbol hlowers
      · intro list item hbody hsymbol
        exact readsAs_wrappedStatement hbody hfits hsymbol hlowers

theorem readsAs_block {list item : String} (hbody : (list, item) ∈ bodies) (h : Fits tree)
    (hsymbol : tree.symbol = rule list) : ReadsAs (Lines WritesStatement) tree (block list item tree) :=
  (yields_listItems (alternatives?_of_mem_bodies hbody).1 h hsymbol).bind fun _ _ =>
    h.lowers.statements hbody hsymbol

end Script

end Handheld
