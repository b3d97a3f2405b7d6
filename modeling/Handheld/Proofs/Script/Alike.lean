import Handheld.Proofs.Data.Except
import Handheld.Proofs.Grammar.Alike
import Handheld.Script.Program

namespace Handheld

namespace Script

open ParseTree

variable {α β γ δ : Type} {tree tree' : ParseTree}

-- Tokens that mean the same wherever they stand. The text of a line break means nothing, and that of a shape
-- only what is read off it.
inductive AlikeTokens : Token String → Token String → Prop
  | same {token token' : Token String} : token'.kind = token.kind → token'.lexeme = token.lexeme →
      AlikeTokens token token'
  | newline {token token' : Token String} : token.kind = "newline" → token'.kind = "newline" →
      AlikeTokens token token'
  | shape {token token' : Token String} : token.kind = "shape" → token'.kind = "shape" →
      Shape.read token'.lexeme = Shape.read token.lexeme → AlikeTokens token token'

abbrev AlikeTrees : ParseTree → ParseTree → Prop := ParseTree.Alike AlikeTokens

-- What is read off one tree is read off the other.
def Agree (R : α → β → Prop) (x : OfTree α) (x' : OfTree β) : Prop :=
  ∀ a, x = .ok a → ∃ b, x' = .ok b ∧ R a b

theorem agree_ok {R : α → β → Prop} {a : α} {b : β} (h : R a b) : Agree R (.ok a) (.ok b) := by
  rintro _ ⟨⟩
  exact ⟨b, rfl, h⟩

theorem agree_error {R : α → β → Prop} (error : TreeError) (x : OfTree β) : Agree R (.error error) x := by
  rintro _ ⟨⟩

theorem Agree.bind {R : α → β → Prop} {S : γ → δ → Prop} {x : OfTree α} {x' : OfTree β}
    {f : α → OfTree γ} {f' : β → OfTree δ} (h : Agree R x x')
    (hf : ∀ a b, R a b → Agree S (f a) (f' b)) : Agree S (x >>= f) (x' >>= f') := by
  intro c hc
  obtain ⟨a, ha, hc⟩ := bind_eq_ok_iff.mp hc
  obtain ⟨b, hb, hab⟩ := h a ha
  obtain ⟨d, hd, hcd⟩ := hf a b hab c hc
  exact ⟨d, bind_eq_ok_iff.mpr ⟨b, hb, hd⟩, hcd⟩

-- What agrees exactly is known for what comes after it.
theorem Agree.andThen {S : γ → δ → Prop} {x x' : OfTree α} {f : α → OfTree γ} {f' : α → OfTree δ}
    (h : Agree Eq x x') (hf : ∀ a, Agree S (f a) (f' a)) : Agree S (x >>= f) (x' >>= f') :=
  h.bind fun a _ hab => hab ▸ hf a

theorem agree_foldlM {R : α → β → Prop} {f : γ → α → OfTree γ} {f' : γ → β → OfTree γ} {items : List α}
    {items' : List β} (h : List.Forall₂ R items items')
    (hf : ∀ c a b, R a b → Agree Eq (f c a) (f' c b)) (init : γ) :
    Agree Eq (items.foldlM f init) (items'.foldlM f' init) := by
  induction h generalizing init with
  | nil => exact agree_ok rfl
  | cons hfirst _ ih =>
      rw [List.foldlM_cons, List.foldlM_cons]
      exact (hf init _ _ hfirst).andThen ih

theorem agree_mapError {ε ε' : Type} {x : Except ε α} {x' : Except ε' α} {f : ε → TreeError}
    {f' : ε' → TreeError} (h : ∀ a, x = .ok a → x' = .ok a) : Agree Eq (x.mapError f) (x'.mapError f') := by
  intro a ha
  exact ⟨a, mapError_eq_ok_iff.mpr (h a (mapError_eq_ok_iff.mp ha)), rfl⟩

theorem AlikeTokens.kind_eq {token token' : Token String} (h : AlikeTokens token token') :
    token'.kind = token.kind := by
  cases h with
  | same hkind => exact hkind
  | newline hkind hkind' | shape hkind hkind' => rw [hkind, hkind']

theorem tag_eq (h : AlikeTrees tree tree') : tree'.tag = tree.tag :=
  congrArg Symbol.name (h.symbol_eq fun _ _ => AlikeTokens.kind_eq)

theorem lexeme_eq (h : AlikeTrees tree tree') (hnewline : tree.tag ≠ "newline")
    (hshape : tree.tag ≠ "shape") : tree'.lexeme = tree.lexeme := by
  cases h with
  | leaf h =>
      cases h with
      | same _ hlexeme => exact hlexeme
      | newline hkind => exact absurd hkind hnewline
      | shape hkind => exact absurd hkind hshape
  | branch => rfl

theorem agree_expect (tag : String) (h : AlikeTrees tree tree') :
    Agree Eq (expect tag tree) (expect tag tree') := by
  unfold expect
  rw [tag_eq h]
  split
  · exact agree_ok rfl
  · exact agree_error _ _

-- What is read after a name has been looked at can use it.
theorem agree_expect_bind {tag : String} {R : α → β → Prop} {f : Unit → OfTree α} {f' : Unit → OfTree β}
    (h : AlikeTrees tree tree') (hf : tree.tag = tag → Agree R (f ()) (f' ())) :
    Agree R (expect tag tree >>= f) (expect tag tree' >>= f') := by
  unfold expect
  rw [tag_eq h]
  split
  · rename_i htag
    exact hf htag
  · exact agree_error _ _

theorem agree_textOf {tag : String} (hnewline : tag ≠ "newline") (hshape : tag ≠ "shape")
    (h : AlikeTrees tree tree') : Agree Eq (textOf tag tree) (textOf tag tree') := by
  refine agree_expect_bind h ?_
  rintro rfl
  exact agree_ok (lexeme_eq h hnewline hshape).symm

theorem agree_singleExpression (h : AlikeTrees tree tree') :
    Agree Eq (singleExpression tree) (singleExpression tree') := by
  refine agree_expect_bind h fun htag => agree_mapError fun value hvalue => ?_
  rw [lexeme_eq h (by simp [htag]) (by simp [htag])]
  exact hvalue

theorem agree_expression (h : AlikeTrees tree tree') : Agree Eq (expression tree) (expression tree') := by
  refine agree_expect_bind h fun _ => ?_
  cases h with
  | leaf => exact agree_error _ _
  | branch hchildren =>
      simp only [children_branch]
      split
      · obtain _ | ⟨hsingle, ⟨⟩⟩ := hchildren
        exact agree_singleExpression hsingle
      · obtain _ | ⟨_, _ | ⟨hfirst, _ | ⟨hsecond, ⟨⟩⟩⟩⟩ := hchildren
        exact (agree_singleExpression hfirst).andThen fun _ =>
          (agree_singleExpression hsecond).andThen fun _ => agree_ok rfl
      · exact agree_error _ _

theorem agree_listItems (list : String) (h : AlikeTrees tree tree') :
    Agree (List.Forall₂ AlikeTrees) (listItems list tree) (listItems list tree') := by
  induction h using alike_induction with
  | leaf =>
      rw [ParseTree.leaf, listItems.eq_def]
      dsimp only
      split <;> exact agree_error _ _
  | branch lhs children children' _ hchildren =>
      rw [listItems.eq_def, listItems.eq_def list (branch lhs children')]
      simp only [branch]
      split
      · split
        · obtain _ | ⟨⟨_, hbefore⟩, _ | ⟨_, _ | ⟨⟨hitem, _⟩, ⟨⟩⟩⟩⟩ := hchildren
          refine hbefore.bind fun items items' hitems => agree_ok ?_
          exact List.rel_append hitems (.cons hitem .nil)
        · obtain _ | ⟨⟨hitem, _⟩, ⟨⟩⟩ := hchildren
          exact agree_ok (.cons hitem .nil)
        · exact agree_error _ _
      · exact agree_error _ _

theorem agree_onlyChild (tag : String) (h : AlikeTrees tree tree') :
    Agree AlikeTrees (onlyChild tag tree) (onlyChild tag tree') := by
  refine agree_expect_bind h fun _ => ?_
  cases h with
  | leaf => exact agree_error _ _
  | branch hchildren =>
      simp only [children_branch]
      split
      · obtain _ | ⟨hchild, ⟨⟩⟩ := hchildren
        exact agree_ok hchild
      · exact agree_error _ _

-- What the three functions for statements read, which call one another.
structure AgreeStatements (tree tree' : ParseTree) : Prop where
  statement : Agree Eq (statement tree) (statement tree')
  statements (list item : String) : Agree Eq (statements list item tree) (statements list item tree')
  wrapped (item : String) : Agree Eq (wrappedStatement item tree) (wrappedStatement item tree')

theorem agreeStatements_leaf (token token' : Token String) : AgreeStatements (.leaf token) (.leaf token') := by
  refine ⟨?_, fun list item => agree_error _ _, fun item => agree_error _ _⟩
  rw [leaf, statement.eq_def]
  dsimp only
  split <;> exact agree_error _ _

theorem agree_conditional {condition condition' body body' : ParseTree}
    (made : Expression → List Statement → Statement) (hcondition : AlikeTrees condition condition')
    (hbody : AlikeTrees body body') (hstatements : AgreeStatements body body') :
    Agree Eq
      (expression condition >>= fun condition => listItems "inif-stmts" body >>= fun _ =>
        statements "inif-stmts" "inif-stmt" body >>= fun body => pure (made condition body))
      (expression condition' >>= fun condition => listItems "inif-stmts" body' >>= fun _ =>
        statements "inif-stmts" "inif-stmt" body' >>= fun body => pure (made condition body)) :=
  (agree_expression hcondition).andThen fun _ => (agree_listItems _ hbody).bind fun _ _ _ =>
    (hstatements.statements _ _).andThen fun _ => agree_ok rfl

section Branches

variable {lhs : String} {children children' : List ParseTree}
  (h : List.Forall₂ (fun child child' => ∃ _ : AlikeTrees child child', AgreeStatements child child')
    children children')

include h

theorem agree_statement_branch :
    Agree Eq (statement (.branch lhs children)) (statement (.branch lhs children')) := by
  rw [statement.eq_def, statement.eq_def (branch lhs children')]
  simp only [branch]
  split
  · split
    · obtain _ | ⟨⟨hname, _⟩, _ | ⟨_, _ | ⟨⟨hvalue, _⟩, ⟨⟩⟩⟩⟩ := h
      exact (agree_textOf (by decide) (by decide) hname).andThen fun _ =>
        (agree_expression hvalue).andThen fun _ => agree_ok rfl
    · exact agree_error _ _
  · split
    · obtain _ | ⟨⟨hword, _⟩, ⟨⟩⟩ := h
      exact (agree_expect _ hword).andThen fun _ => agree_ok rfl
    · obtain _ | ⟨_, _ | ⟨⟨hshape, _⟩, _ | ⟨_, _ | ⟨_, hplace⟩⟩⟩⟩ := h
      obtain _ | ⟨⟨hx, _⟩, _ | ⟨_, _ | ⟨⟨hy, _⟩, _ | ⟨_, ⟨⟩⟩⟩⟩⟩ := hplace
      exact (agree_textOf (by decide) (by decide) hshape).andThen fun _ =>
        (agree_expression hx).andThen fun _ => (agree_expression hy).andThen fun _ => agree_ok rfl
    · exact agree_error _ _
  · split
    · obtain _ | ⟨_, _ | ⟨⟨hstate, _⟩, ⟨⟩⟩⟩ := h
      exact (agree_textOf (by decide) (by decide) hstate).andThen fun _ => agree_ok rfl
    · exact agree_error _ _
  · split
    · obtain _ | ⟨⟨_, hselection⟩, ⟨⟩⟩ := h
      exact hselection.statement
    · exact agree_error _ _
  · split
    · obtain _ | ⟨_, _ | ⟨⟨hcondition, _⟩, hblock⟩⟩ := h
      obtain _ | ⟨_, _ | ⟨_, _ | ⟨⟨hbody, hagree⟩, _ | ⟨_, _ | ⟨_, ⟨⟩⟩⟩⟩⟩⟩ := hblock
      exact agree_conditional .ifTrue hcondition hbody hagree
    · exact agree_error _ _
  · split
    · obtain _ | ⟨_, _ | ⟨_, _ | ⟨⟨hcondition, _⟩, hblock⟩⟩⟩ := h
      obtain _ | ⟨_, _ | ⟨_, _ | ⟨⟨hbody, hagree⟩, _ | ⟨_, _ | ⟨_, ⟨⟩⟩⟩⟩⟩⟩ := hblock
      exact agree_conditional .ifFalse hcondition hbody hagree
    · exact agree_error _ _
  · exact agree_error _ _

theorem agree_statements_branch (list item : String) :
    Agree Eq (statements list item (.branch lhs children)) (statements list item (.branch lhs children')) := by
  rw [statements.eq_def, statements.eq_def list item (branch lhs children')]
  simp only [branch]
  split
  · rename_i heq
    obtain ⟨_, _, _, rfl⟩ := node.inj heq
    obtain _ | ⟨⟨_, hbefore⟩, _ | ⟨_, _ | ⟨⟨_, hlast⟩, ⟨⟩⟩⟩⟩ := h
    exact (hbefore.statements list item).andThen fun _ =>
      (hlast.wrapped item).andThen fun _ => agree_ok rfl
  · rename_i heq
    obtain ⟨_, _, _, rfl⟩ := node.inj heq
    obtain _ | ⟨⟨_, honly⟩, ⟨⟩⟩ := h
    exact (honly.wrapped item).andThen fun _ => agree_ok rfl
  · exact agree_error _ _

theorem agree_wrappedStatement_branch (item : String) : Agree Eq
    (wrappedStatement item (.branch lhs children)) (wrappedStatement item (.branch lhs children')) := by
  rw [wrappedStatement.eq_def, wrappedStatement.eq_def item (branch lhs children')]
  simp only [branch]
  split
  · rename_i heq
    obtain ⟨rfl, _, _, rfl⟩ := node.inj heq
    obtain _ | ⟨⟨_, hchild⟩, ⟨⟩⟩ := h
    dsimp only
    split
    · exact hchild.statement
    · exact agree_error _ _
  · exact agree_error _ _

end Branches

theorem agreeStatements (h : AlikeTrees tree tree') : AgreeStatements tree tree' := by
  induction h using alike_induction with
  | leaf token token' => exact agreeStatements_leaf token token'
  | branch lhs children children' _ hchildren =>
      exact ⟨agree_statement_branch hchildren, agree_statements_branch hchildren,
        agree_wrappedStatement_branch hchildren⟩

theorem agree_block (list item : String) (h : AlikeTrees tree tree') :
    Agree Eq (block list item tree) (block list item tree') :=
  (agree_listItems list h).bind fun _ _ _ => (agreeStatements h).statements list item

theorem agree_handler (h : AlikeTrees tree tree') : Agree Eq (handler tree) (handler tree') := by
  unfold handler
  cases h with
  | leaf => exact agree_error _ _
  | branch hchildren =>
      simp only [children_branch]
      split
      · obtain _ | ⟨hlabel, _ | ⟨_, _ | ⟨_, _ | ⟨hbody, _ | ⟨_, _ | ⟨_, ⟨⟩⟩⟩⟩⟩⟩⟩ := hchildren
        refine (agree_textOf (by decide) (by decide) hlabel).andThen fun name => ?_
        cases Button.ofLabel? name with
        | none => exact agree_error _ _
        | some button => exact (agree_block _ _ hbody).andThen fun _ => agree_ok rfl
      · exact agree_error _ _

theorem agree_addMember (name : String) (reading : Reading GameState) (h : AlikeTrees tree tree') :
    Agree Eq (addMember name reading tree) (addMember name reading tree') := by
  refine (agree_onlyChild "instate-stmt" h).bind fun member member' hmember => ?_
  dsimp only
  rw [tag_eq hmember]
  split
  · exact (agree_handler hmember).andThen fun _ => agree_ok rfl
  · exact (agreeStatements hmember).statement.andThen fun _ => agree_ok rfl

theorem agree_stateDefinition (redefined : List Redefinition) (h : AlikeTrees tree tree') :
    Agree Eq (stateDefinition redefined tree) (stateDefinition redefined tree') := by
  unfold stateDefinition
  cases h with
  | leaf => exact agree_error _ _
  | branch hchildren =>
      simp only [children_branch]
      split
      · obtain _ | ⟨hname, _ | ⟨_, _ | ⟨_, _ | ⟨hmembers, _ | ⟨_, _ | ⟨_, ⟨⟩⟩⟩⟩⟩⟩⟩ := hchildren
        refine (agree_textOf (by decide) (by decide) hname).andThen fun name => ?_
        refine (agree_listItems "instate-stmts" hmembers).bind fun items items' hitems => ?_
        exact (agree_foldlM hitems (fun reading _ _ => agree_addMember name reading) _).andThen fun _ =>
          agree_ok rfl
      · exact agree_error _ _

theorem read_eq (h : AlikeTrees tree tree') (hshape : tree.tag = "shape") :
    Shape.read tree'.lexeme = Shape.read tree.lexeme := by
  cases h with
  | leaf h =>
      cases h with
      | same _ hlexeme => exact congrArg Shape.read hlexeme
      | newline hkind => exact absurd (hkind.symm.trans hshape) (by decide)
      | shape _ _ hread => exact hread
  | branch => rfl

theorem agree_shapeDefinition (h : AlikeTrees tree tree') :
    Agree Eq (shapeDefinition tree) (shapeDefinition tree') := by
  unfold shapeDefinition
  cases h with
  | leaf => exact agree_error _ _
  | branch hchildren =>
      simp only [children_branch]
      split
      · obtain _ | ⟨hname, _ | ⟨_, _ | ⟨_, _ | ⟨hbody, _ | ⟨_, ⟨⟩⟩⟩⟩⟩⟩ := hchildren
        refine (agree_textOf (by decide) (by decide) hname).andThen fun name => ?_
        refine agree_expect_bind hbody fun htag => ?_
        rw [read_eq hbody htag]
        exact (agree_mapError fun _ hread => hread).andThen fun _ => agree_ok rfl
      · exact agree_error _ _

theorem agree_addDefinition (reading : Reading Definitions) (h : AlikeTrees tree tree') :
    Agree Eq (addDefinition reading tree) (addDefinition reading tree') := by
  refine (agree_onlyChild "top-level-stmt" h).bind fun definition definition' hdefinition => ?_
  dsimp only
  rw [tag_eq hdefinition]
  split
  · exact (agree_shapeDefinition hdefinition).andThen fun _ => agree_ok rfl
  · exact (agree_stateDefinition _ hdefinition).andThen fun _ => agree_ok rfl
  · exact agree_error _ _

end Script

-- Alike trees are the same program.
theorem Program.ofTree_alike {tree tree' : ParseTree} {found : Program × List Script.Redefinition}
    (h : Script.AlikeTrees tree tree') (hfound : Program.ofTree tree = .ok found) :
    Program.ofTree tree' = .ok found := by
  have hagree : Script.Agree Eq (Program.ofTree tree) (Program.ofTree tree') := by
    refine Script.agree_expect_bind h fun _ => ?_
    cases h with
    | leaf => exact Script.agree_error _ _
    | branch hchildren =>
        simp only [ParseTree.children_branch]
        split
        · obtain _ | ⟨hinitial, _ | ⟨_, _ | ⟨hdefinitions, _ | ⟨_, ⟨⟩⟩⟩⟩⟩ := hchildren
          refine (Script.agree_listItems _ hdefinitions).bind fun items items' hitems => ?_
          refine (Script.agree_foldlM hitems (fun reading _ _ => Script.agree_addDefinition reading)
            _).andThen fun reading => ?_
          exact (Script.agree_textOf (by decide) (by decide) hinitial).andThen fun _ => Script.agree_ok rfl
        · exact Script.agree_error _ _
  obtain ⟨_, hfound', rfl⟩ := hagree found hfound
  exact hfound'

end Handheld
