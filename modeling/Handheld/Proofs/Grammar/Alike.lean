import Handheld.Proofs.Data.Except
import Handheld.Proofs.Grammar.Derivation

namespace Handheld

namespace ParseTree

variable {grammar : Grammar} {like : Token String → Token String → Prop} {tree tree' : ParseTree}
  {tokens tokens' : List (Token String)}

-- Trees of one form whose tokens are alike in turn.
inductive Alike (like : Token String → Token String → Prop) : ParseTree → ParseTree → Prop
  | leaf {token token' : Token String} : like token token' → Alike like (leaf token) (leaf token')
  | branch {lhs : String} {children children' : List ParseTree} :
      List.Forall₂ (Alike like) children children' → Alike like (branch lhs children) (branch lhs children')

-- The recursor has a second motive, for the lists of trees below a branch.
theorem alike_induction {motive : (tree tree' : ParseTree) → Alike like tree tree' → Prop}
    (leaf : ∀ token token' (hlike : like token token'), motive _ _ (.leaf hlike))
    (branch : ∀ lhs children children' (halike : List.Forall₂ (Alike like) children children'),
      List.Forall₂ (fun child child' => ∃ h, motive child child' h) children children' →
        motive (.branch lhs children) (.branch lhs children') (.branch halike))
    (h : Alike like tree tree') : motive tree tree' h :=
  @Alike.rec like motive
    (fun trees trees' _ => List.Forall₂ (fun tree tree' => ∃ h, motive tree tree' h) trees trees')
    (leaf _ _) (fun halike hchildren => branch _ _ _ halike hchildren)
    .nil (fun hfirst _ hmotive hrest => .cons ⟨hfirst, hmotive⟩ hrest) _ _ h

theorem Alike.symbol_eq (hkind : ∀ token token', like token token' → token'.kind = token.kind)
    (h : tree.Alike like tree') : tree'.symbol = tree.symbol := by
  cases h with
  | leaf hlike => simp [hkind _ _ hlike]
  | branch => rfl

-- A tree for some tokens can be put together again from tokens that are alike.
def Remade (grammar : Grammar) (like : Token String → Token String → Prop) (tree : ParseTree) : Prop :=
  ∀ tokens tokens', tree.leaves = tokens.map leaf → List.Forall₂ like tokens tokens' →
    ∃ tree', tree.Alike like tree' ∧ tree'.Follows grammar ∧ tree'.leaves = tokens'.map leaf

theorem exists_alike_of_all {trees : List ParseTree} (h : ∀ tree ∈ trees, tree.Remade grammar like)
    (hleaves : leavesOfAll trees = tokens.map leaf) (hlike : List.Forall₂ like tokens tokens') :
    ∃ trees', List.Forall₂ (Alike like) trees trees' ∧ (∀ tree' ∈ trees', tree'.Follows grammar) ∧
      leavesOfAll trees' = tokens'.map leaf := by
  induction trees generalizing tokens tokens' with
  | nil =>
      obtain rfl : tokens = [] := by simpa using hleaves.symm
      cases hlike with
      | nil => exact ⟨[], .nil, by simp, rfl⟩
  | cons tree trees ih =>
      obtain ⟨htree, htrees⟩ := List.forall_mem_cons.mp h
      obtain ⟨first, rest, rfl, hfirst, hrest⟩ := List.map_eq_append_iff.mp hleaves.symm
      obtain ⟨first', rest', rfl, hlike, hlike'⟩ := exists_append_of_forall₂ hlike
      obtain ⟨tree', halike, hfollows, hleaves⟩ := htree first first' hfirst.symm hlike
      obtain ⟨trees', halikes, hall, hleaves'⟩ := ih htrees hrest.symm hlike'
      refine ⟨tree' :: trees', .cons halike halikes, List.forall_mem_cons.mpr ⟨hfollows, hall⟩, ?_⟩
      simp [hleaves, hleaves']

theorem map_symbol_of_alike (hkind : ∀ token token', like token token' → token'.kind = token.kind)
    {trees trees' : List ParseTree} (h : List.Forall₂ (Alike like) trees trees') :
    trees'.map symbol = trees.map symbol := by
  induction h with
  | nil => rfl
  | cons hfirst _ ih => rw [List.map_cons, List.map_cons, hfirst.symbol_eq hkind, ih]

theorem Follows.remade (hkind : ∀ token token', like token token' → token'.kind = token.kind)
    (h : tree.Follows grammar) : tree.Remade grammar like := by
  induction h with
  | leaf token =>
      intro tokens tokens' hleaves hlike
      obtain ⟨token', rfl, htoken⟩ := List.map_eq_singleton_iff.mp hleaves.symm
      obtain rfl := leaf_injective htoken
      cases hlike with
      | cons hlike hnil =>
          cases hnil
          exact ⟨_, .leaf hlike, .leaf _, rfl⟩
  | @branch lhs children hoffers _ ih =>
      intro tokens tokens' hleaves hlike
      obtain ⟨children', halike, hfollows, hleaves'⟩ := exists_alike_of_all ih hleaves hlike
      rw [← map_symbol_of_alike hkind halike] at hoffers
      exact ⟨.branch lhs children', .branch halike, .branch hoffers hfollows, hleaves'⟩

end ParseTree

-- Tokens of the same kinds are derived in the same way.
theorem IsDerivation.exists_alike {grammar : Grammar} {start : String} {body : List Symbol}
    {like : Token String → Token String → Prop} {tokens tokens' : List (Token String)} {tree : ParseTree}
    (hkind : ∀ token token', like token token' → token'.kind = token.kind)
    (h : IsDerivation grammar start body tokens tree) (hlike : List.Forall₂ like tokens tokens') :
    ∃ tree', IsDerivation grammar start body tokens' tree' ∧ tree.Alike like tree' := by
  obtain ⟨children, rfl, hsymbols, hfollows, hleaves⟩ := h
  obtain ⟨children', halike, hfollows', hleaves'⟩ := ParseTree.exists_alike_of_all
    (fun child hchild => (hfollows child hchild).remade hkind) hleaves hlike
  have hsymbols' := (ParseTree.map_symbol_of_alike hkind halike).trans hsymbols
  exact ⟨.branch start children', ⟨children', rfl, hsymbols', hfollows', hleaves'⟩, .branch halike⟩

end Handheld
