import Handheld.Proofs.Script.Writing

namespace Handheld.Script

variable {α : Type} {tokens tokens' : List (Token String)} {symbols symbols' : List Symbol}

-- What is written in a script follows the grammar.

-- The grammar lets some symbols stand for some tokens.
def Makes (symbols : List Symbol) (tokens : List (Token String)) : Prop :=
  grammar.Derives symbols (Grammar.terminals (kinds tokens))

theorem Makes.append (h : Makes symbols tokens) (h' : Makes symbols' tokens') :
    Makes (symbols ++ symbols') (tokens ++ tokens') := by
  simpa [Makes, Grammar.terminals, kinds] using Grammar.Derives.append h h'

theorem makes_tokens {names : List String} (h : kinds tokens = names) :
    Makes (Grammar.terminals names) tokens := by
  subst h
  exact .refl

theorem makes_token {found : Token String} {kind : String} (h : found.kind = kind) :
    Makes [token kind] [found] := by
  subst h
  exact .refl

theorem Makes.rule {name : String} {alternatives : List (List Symbol)} (h : Makes symbols tokens)
    (hrule : grammar.alternatives? name = some alternatives) (hmem : symbols ∈ alternatives) :
    Makes [rule name] tokens :=
  (Grammar.derives_of_offers ⟨alternatives, hrule, hmem⟩).trans h

section Lines

variable {list item : String} {inner : List (Token String)} {items : List α}

theorem makes_more {newline : Token String} (hrule : grammar.alternatives? list = some (lines list item))
    (hinner : Makes [rule list] inner) (hnewline : newline.kind = "newline")
    (hitem : Makes [rule item] tokens) : Makes [rule list] (inner ++ newline :: tokens) :=
  (hinner.append ((makes_token hnewline).append hitem)).rule hrule (by simp [lines, lineBreak])

-- The grammar lets lists grow at their end, so the lines before the next one are a list already.
theorem makes_linesAfter {before : List (Token String)} {newline : Token String}
    (hrule : grammar.alternatives? list = some (lines list item)) (hbefore : Makes [rule list] before)
    (hnewline : newline.kind = "newline") (h : Lines (fun tokens _ => Makes [rule item] tokens) inner items) :
    Makes [rule list] (before ++ newline :: inner) := by
  induction h generalizing before newline with
  | only hitem => exact makes_more hrule hbefore hnewline hitem
  | more hitem hnewline' _ ih =>
      have hnext := ih (makes_more hrule hbefore hnewline hitem) hnewline'
      rwa [List.append_assoc, List.cons_append] at hnext

theorem makes_lines (hrule : grammar.alternatives? list = some (lines list item))
    (h : Lines (fun tokens _ => Makes [rule item] tokens) inner items) : Makes [rule list] inner := by
  have honly {tokens : List (Token String)} (hitem : Makes [rule item] tokens) :
      Makes [rule list] tokens := hitem.rule hrule (by simp [lines])
  cases h with
  | only hitem => exact honly hitem
  | more hitem hnewline hmore => exact makes_linesAfter hrule (honly hitem) hnewline hmore

theorem makes_braced (hrule : grammar.alternatives? list = some (lines list item))
    (h : Braced (Lines fun tokens _ => Makes [rule item] tokens) tokens items) :
    Makes (braced list) tokens := by
  obtain ⟨hopening, hlines, hclosing⟩ := h
  exact ((makes_tokens hopening).append (makes_lines hrule hlines)).append (makes_tokens hclosing)

end Lines

theorem WritesExpression.makes {value : Expression} (h : WritesExpression tokens value) :
    Makes [rule "expression"] tokens := by
  cases h with
  | single hkind => exact (makes_token hkind).rule rfl (by decide)
  | random hkinds => exact (makes_tokens hkinds).rule rfl (by decide)

-- One of the rules for statements that may stand anywhere.
def MakesStatement (tokens : List (Token String)) : Prop :=
  ∃ symbols ∈ simpleStatements, Makes symbols tokens

theorem makes_assign {name sign : Token String} {right : List (Token String)} {value : Expression}
    (hkinds : kinds [name, sign] = ["variable", "assignment-op"]) (hright : WritesExpression right value) :
    MakesStatement ([name, sign] ++ right) := by
  have hmakes := (makes_tokens hkinds).append hright.makes
  exact ⟨[rule "variable-update-stmt"], by decide, hmakes.rule rfl (by decide)⟩

theorem makes_clear {word : Token String} (hkind : word.kind = "clear-screen") : MakesStatement [word] :=
  ⟨[rule "screen-update-stmt"], by decide, (makes_token hkind).rule rfl (by decide)⟩

theorem makes_display {word shape sign opening comma closing : Token String}
    {left right : List (Token String)} {x y : Expression}
    (hkinds : kinds [word, shape, sign, opening] =
      ["display-shape", "shape-name", "coordinate-op", "left-paren"])
    (hleft : WritesExpression left x) (hcomma : comma.kind = "comma") (hright : WritesExpression right y)
    (hclosing : closing.kind = "right-paren") :
    MakesStatement ([word, shape, sign, opening] ++ left ++ [comma] ++ right ++ [closing]) := by
  have hmakes := ((((makes_tokens hkinds).append hleft.makes).append (makes_token hcomma)).append
    hright.makes).append (makes_token hclosing)
  exact ⟨[rule "screen-update-stmt"], by decide, hmakes.rule rfl (by decide)⟩

theorem makes_goto {word state : Token String} (hkinds : kinds [word, state] = ["goto", "state-name"]) :
    MakesStatement [word, state] :=
  ⟨[rule "goto-stmt"], by decide, (makes_tokens hkinds).rule rfl (by decide)⟩

theorem makes_body {list item : String} {body : List Statement}
    (hlist : grammar.alternatives? list = some (lines list item))
    (hitem : grammar.alternatives? item = some simpleStatements)
    (h : Braced (Lines fun tokens _ => MakesStatement tokens) tokens body) : Makes (braced list) tokens := by
  refine makes_braced hlist (h.imp fun _ _ hlines => hlines.imp fun tokens _ hmakes => ?_)
  obtain ⟨symbols, hmem, hmakes⟩ := hmakes
  exact hmakes.rule hitem hmem

theorem makes_ifTrue {word : Token String} {asked block : List (Token String)} {condition : Expression}
    {body : List Statement} (hword : word.kind = "if") (hasked : WritesExpression asked condition)
    (hblock : Braced (Lines fun tokens _ => MakesStatement tokens) block body) :
    MakesStatement ([word] ++ asked ++ block) := by
  have hbody : Makes (braced "inif-stmts") block := makes_body rfl rfl hblock
  have hmakes := ((makes_token hword).append hasked.makes).append hbody
  have hif : Makes [rule "if-stmt"] ([word] ++ asked ++ block) := hmakes.rule rfl (by decide)
  exact ⟨[rule "selection-stmt"], by decide, hif.rule rfl (by decide)⟩

theorem makes_ifFalse {word negation : Token String} {asked block : List (Token String)}
    {condition : Expression} {body : List Statement} (hkinds : kinds [word, negation] = ["if", "not"])
    (hasked : WritesExpression asked condition)
    (hblock : Braced (Lines fun tokens _ => MakesStatement tokens) block body) :
    MakesStatement ([word, negation] ++ asked ++ block) := by
  have hbody : Makes (braced "inif-stmts") block := makes_body rfl rfl hblock
  have hmakes := ((makes_tokens hkinds).append hasked.makes).append hbody
  have hif : Makes [rule "if-not-stmt"] ([word, negation] ++ asked ++ block) :=
    hmakes.rule rfl (by decide)
  exact ⟨[rule "selection-stmt"], by decide, hif.rule rfl (by decide)⟩

mutual

theorem WritesStatement.makes {tokens : List (Token String)} {statement : Statement} :
    WritesStatement tokens statement → MakesStatement tokens
  | .assign hkinds hright => makes_assign hkinds hright
  | .clear hkind => makes_clear hkind
  | .display hkinds hleft hcomma hright hclosing => makes_display hkinds hleft hcomma hright hclosing
  | .goto hkinds => makes_goto hkinds
  | .ifTrue hword hasked (.mk hopening hlines hclosing) =>
    makes_ifTrue hword hasked (.mk hopening hlines.makesStatements hclosing)
  | .ifFalse hkinds hasked (.mk hopening hlines hclosing) =>
    makes_ifFalse hkinds hasked (.mk hopening hlines.makesStatements hclosing)

theorem Lines.makesStatements {inner : List (Token String)} {items : List Statement} :
    Lines WritesStatement inner items → Lines (fun tokens _ => MakesStatement tokens) inner items
  | .only hitem => .only hitem.makes
  | .more hitem hnewline hmore => .more hitem.makes hnewline hmore.makesStatements

end

theorem WritesMember.makes {member : Member} (h : WritesMember tokens member) :
    Makes [rule "instate-stmt"] tokens := by
  cases h with
  | statement hstatement =>
      obtain ⟨symbols, hmem, hmakes⟩ := hstatement.makes
      exact hmakes.rule rfl (List.mem_append_left _ hmem)
  | @handler label _ block _ hkind _ hblock =>
      have hstatements := hblock.imp fun _ _ => Lines.makesStatements
      have hbody : Makes (braced "inhandler-stmts") block := makes_body rfl rfl hstatements
      have hhandler : Makes [rule "btn-handler"] ([label] ++ block) :=
        ((makes_token hkind).append hbody).rule rfl (by decide)
      exact hhandler.rule rfl (by decide)

theorem WritesDefinition.makes {definition : Definition} (h : WritesDefinition tokens definition) :
    Makes [rule "top-level-stmt"] tokens := by
  cases h with
  | @shape name opening newline pixels closing _ hkinds =>
      have hshape : Makes [rule "shape-def"] [name, opening, newline, pixels, closing] :=
        (makes_tokens hkinds).rule rfl (by decide)
      exact hshape.rule rfl (by decide)
  | @state name block _ hkind hblock =>
      have hmembers := hblock.imp fun _ _ hlines => hlines.imp fun _ _ => WritesMember.makes
      have hbody : Makes (braced "instate-stmts") block := makes_braced rfl hmembers
      have hstate : Makes [rule "state-def"] ([name] ++ block) :=
        ((makes_token hkind).append hbody).rule rfl (by decide)
      exact hstate.rule rfl (by decide)

theorem WritesScript.makes {initial : String} {definitions : List Definition}
    (h : WritesScript tokens initial definitions) :
    Makes [token "state-name", lineBreak, rule "top-level-stmts", lineBreak] tokens := by
  cases h with
  | mk hkinds hlines hnewline =>
      have hdefinitions := hlines.imp fun _ _ => WritesDefinition.makes
      exact ((makes_tokens hkinds).append (makes_lines rfl hdefinitions)).append (makes_token hnewline)

-- What is written in a script can be read.
section Readable

-- The expressions among some tokens have a value to be read.
def Readable (tokens : List (Token String)) : Prop :=
  ∀ token ∈ tokens, token.kind = "single-expression" → ∃ value, Expression.read token.lexeme = .ok value

theorem Readable.append (h : Readable tokens) (h' : Readable tokens') : Readable (tokens ++ tokens') :=
  List.forall_mem_append.mpr ⟨h, h'⟩

theorem readable_of_kinds {names : List String} (h : kinds tokens = names)
    (hnone : "single-expression" ∉ names) : Readable tokens := by
  intro token htoken hkind
  have hmem : token.kind ∈ kinds tokens := List.mem_map_of_mem htoken
  rw [h, hkind] at hmem
  exact absurd hmem hnone

theorem readable_token {found : Token String} {kind : String} (h : found.kind = kind)
    (hnone : kind ≠ "single-expression") : Readable [found] := by
  subst h
  exact readable_of_kinds rfl (by simpa [kinds] using hnone.symm)

theorem WritesExpression.readable {value : Expression} (h : WritesExpression tokens value) :
    Readable tokens := by
  cases h with
  | single _ hread =>
      intro token htoken _
      obtain rfl := List.mem_singleton.mp htoken
      exact ⟨_, hread⟩
  | @random word _ _ _ _ hkinds hfirst hsecond =>
      have hword : word.kind = "rand" := (List.cons.inj hkinds).1
      refine (readable_token hword (by decide)).append fun token htoken _ => ?_
      obtain rfl | rfl : token = _ ∨ token = _ := by simpa using htoken
      · exact ⟨_, hfirst⟩
      · exact ⟨_, hsecond⟩

theorem readable_more {newline : Token String} {rest : List (Token String)} (hitem : Readable tokens)
    (hnewline : newline.kind = "newline") (hmore : Readable rest) : Readable (tokens ++ newline :: rest) :=
  hitem.append ((readable_token hnewline (by decide)).append hmore)

theorem Lines.readable {inner : List (Token String)} {items : List α}
    (h : Lines (fun tokens _ => Readable tokens) inner items) : Readable inner := by
  induction h with
  | only hitem => exact hitem
  | more hitem hnewline _ ih => exact readable_more hitem hnewline ih

theorem readable_braced {opening newline newline' closing : Token String}
    (hopening : kinds [opening, newline] = ["left-brace", "newline"]) (hinner : Readable tokens)
    (hclosing : kinds [newline', closing] = ["newline", "right-brace"]) :
    Readable ([opening, newline] ++ tokens ++ [newline', closing]) :=
  ((readable_of_kinds hopening (by decide)).append hinner).append (readable_of_kinds hclosing (by decide))

theorem Braced.readable {a : α} (h : Braced (fun inner _ => Readable inner) tokens a) :
    Readable tokens := by
  obtain ⟨hopening, hinner, hclosing⟩ := h
  exact readable_braced hopening hinner hclosing

mutual

theorem WritesStatement.readable {tokens : List (Token String)} {statement : Statement} :
    WritesStatement tokens statement → Readable tokens
  | .assign hkinds hright => (readable_of_kinds hkinds (by decide)).append hright.readable
  | .clear hkind => readable_token hkind (by decide)
  | .display hkinds hleft hcomma hright hclosing =>
    ((((readable_of_kinds hkinds (by decide)).append hleft.readable).append
      (readable_token hcomma (by decide))).append hright.readable).append
        (readable_token hclosing (by decide))
  | .goto hkinds => readable_of_kinds hkinds (by decide)
  | .ifTrue hword hasked (.mk hopening hlines hclosing) =>
    ((readable_token hword (by decide)).append hasked.readable).append
      (readable_braced hopening hlines.readableStatements hclosing)
  | .ifFalse hkinds hasked (.mk hopening hlines hclosing) =>
    ((readable_of_kinds hkinds (by decide)).append hasked.readable).append
      (readable_braced hopening hlines.readableStatements hclosing)

theorem Lines.readableStatements {inner : List (Token String)} {items : List Statement} :
    Lines WritesStatement inner items → Readable inner
  | .only hitem => hitem.readable
  | .more hitem hnewline hmore => readable_more hitem.readable hnewline hmore.readableStatements

end

theorem WritesMember.readable {member : Member} (h : WritesMember tokens member) : Readable tokens := by
  cases h with
  | statement hstatement => exact hstatement.readable
  | handler hkind _ hblock =>
      have hbody := hblock.imp fun _ _ => Lines.readableStatements
      exact (readable_token hkind (by decide)).append hbody.readable

theorem WritesDefinition.readable {definition : Definition} (h : WritesDefinition tokens definition) :
    Readable tokens := by
  cases h with
  | shape hkinds => exact readable_of_kinds hkinds (by decide)
  | state hkind hblock =>
      have hmembers := hblock.imp fun _ _ hlines => (hlines.imp fun _ _ => WritesMember.readable).readable
      exact (readable_token hkind (by decide)).append hmembers.readable

theorem WritesScript.readable {initial : String} {definitions : List Definition}
    (h : WritesScript tokens initial definitions) : Readable tokens := by
  cases h with
  | mk hkinds hlines hnewline =>
      have hdefinitions := hlines.imp fun _ _ => WritesDefinition.readable
      exact ((readable_of_kinds hkinds (by decide)).append hdefinitions.readable).append
        (readable_token hnewline (by decide))

end Readable

end Handheld.Script
