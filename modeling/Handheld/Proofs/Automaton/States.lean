import Handheld.Proofs.Automaton.Closure
import Mathlib.Data.List.Sublists

namespace Handheld.Automaton

variable {productions : List Production} {root : ItemSet}

def allItems (productions : List Production) : List Item :=
  productions.flatMap fun production =>
    (List.range (production.rhs.length + 1)).map (Item.ofCursor production)

theorem length_allItems : (allItems productions).length = itemCount productions := by
  simp only [allItems, itemCount, List.length_flatMap, List.length_map, List.length_range, List.sum]

theorem mem_allItems {item : Item} (h : item.production ∈ productions) :
    item ∈ allItems productions := by
  refine List.mem_flatMap.mpr ⟨item.production, h, List.mem_map.mpr ⟨item.cursor, ?_, ?_⟩⟩
  · exact List.mem_range.mpr (Nat.lt_succ_of_le item.cursor_le)
  · simp [Item.ofCursor, item.cursor_le]

-- The sets of items that some productions have.
def allItemSets (productions : List Production) : Finset ItemSet :=
  ((allItems productions).sublists.map (.ofList ·)).toFinset

theorem card_allItemSets_le : (allItemSets productions).card ≤ 1 <<< itemCount productions := by
  refine (List.toFinset_card_le _).trans_eq ?_
  rw [List.length_map, List.length_sublists, length_allItems, Nat.one_shiftLeft]

theorem mem_allItemSets {items : ItemSet} (h : ∀ item ∈ items, item.production ∈ productions) :
    items ∈ allItemSets productions := by
  refine List.mem_toFinset.mpr (List.mem_map.mpr
    ⟨(allItems productions).filter (· ∈ items), List.mem_sublists.mpr List.filter_sublist, ?_⟩)
  apply Std.ExtTreeSet.ext_mem
  intro item
  simp only [Std.ExtTreeSet.mem_ofList, List.contains_iff_mem, List.mem_filter, decide_eq_true_eq]
  exact ⟨And.right, fun hitem => ⟨mem_allItems (h item hitem), hitem⟩⟩

theorem production_mem_of_mem_target {items : ItemSet} {symbol : Symbol}
    (h : ∀ item ∈ items, item.production ∈ productions) :
    ∀ item ∈ target productions items symbol, item.production ∈ productions := by
  intro item hitem
  refine (mem_target_iff.mp hitem).production_mem fun advanced hadvanced => ?_
  obtain ⟨before, hbefore, _, rfl⟩ := mem_advances_iff.mp hadvanced
  exact h before hbefore

theorem mem_targets_iff {items next : ItemSet} :
    next ∈ targets productions items ↔ ∃ symbol ∈ nextSymbols items,
      symbol.isEndMarker = false ∧ target productions items symbol = next := by
  simp [targets, and_assoc]

theorem mem_states_iff (hroot : ∀ item ∈ root, item.production ∈ productions) {items : ItemSet} :
    items ∈ states productions root ↔
      Relation.ReflTransGen (fun items next => next ∈ targets productions items) root items := by
  have hmem : ∀ items ∈ allItemSets productions, ∀ item ∈ items, item.production ∈ productions := by
    intro items hitems item hitem
    obtain ⟨sublist, hsublist, rfl⟩ := List.mem_map.mp (List.mem_toFinset.mp hitems)
    rw [Std.ExtTreeSet.mem_ofList, List.contains_iff_mem] at hitem
    obtain ⟨production, hproduction, hcursor⟩ :=
      List.mem_flatMap.mp ((List.mem_sublists.mp hsublist).subset hitem)
    obtain ⟨_, _, rfl⟩ := List.mem_map.mp hcursor
    exact hproduction
  have hnext : ∀ items ∈ allItemSets productions, ∀ next ∈ targets productions items,
      next ∈ allItemSets productions := by
    intro items hitems next hnext
    obtain ⟨symbol, _, _, rfl⟩ := mem_targets_iff.mp hnext
    exact mem_allItemSets (production_mem_of_mem_target (hmem items hitems))
  rw [states, mem_explore_iff _ (by simpa using mem_allItemSets hroot) hnext card_allItemSets_le]
  simp

theorem states_eq_cons (productions : List Production) (root : ItemSet) :
    ∃ others, states productions root = root :: others := by
  obtain ⟨budget, hbudget⟩ : ∃ budget, 1 <<< itemCount productions = budget + 1 := by
    rw [Nat.one_shiftLeft]
    exact Nat.exists_eq_add_one.mpr (Nat.two_pow_pos _)
  obtain ⟨others, hothers⟩ :=
    seen_prefix_explore (targets productions) budget (targets productions root) [root]
  exact ⟨others, by rw [states, hbudget, explore]; simpa using hothers.symm⟩

theorem nodup_states (productions : List Production) (root : ItemSet) :
    (states productions root).Nodup :=
  nodup_explore _ _ _ _ List.nodup_nil

theorem root_mem_states : root ∈ states productions root := by
  obtain ⟨others, hothers⟩ := states_eq_cons productions root
  simp [hothers]

theorem target_mem_states (hroot : ∀ item ∈ root, item.production ∈ productions) {items : ItemSet}
    {symbol : Symbol} (hitems : items ∈ states productions root)
    (hsymbol : symbol ∈ nextSymbols items) (hmarker : symbol.isEndMarker = false) :
    target productions items symbol ∈ states productions root := by
  rw [mem_states_iff hroot] at hitems ⊢
  exact hitems.tail (mem_targets_iff.mpr ⟨symbol, hsymbol, hmarker, rfl⟩)

-- What holds of the root and stays when a symbol is read holds of every state.
theorem states_induction {P : ItemSet → Prop} (hroot : P root)
    (hstep : ∀ items symbol, P items → symbol ∈ nextSymbols items → symbol.isEndMarker = false →
      P (target productions items symbol)) {items : ItemSet}
    (h : items ∈ states productions root) : P items := by
  obtain ⟨first, hfirst, hreach⟩ := (reaches_of_mem_explore h).resolve_left (by simp)
  obtain rfl := List.mem_singleton.mp hfirst
  clear h
  induction hreach with
  | refl => exact hroot
  | tail _ hnext ih =>
      obtain ⟨symbol, hsymbol, hmarker, rfl⟩ := mem_targets_iff.mp hnext
      exact hstep _ symbol ih hsymbol hmarker

theorem production_mem_of_mem_states (hroot : ∀ item ∈ root, item.production ∈ productions)
    {items : ItemSet} (h : items ∈ states productions root) :
    ∀ item ∈ items, item.production ∈ productions :=
  states_induction (P := fun items => ∀ item ∈ items, item.production ∈ productions) hroot
    (fun _ _ ih _ _ => production_mem_of_mem_target ih) h

end Handheld.Automaton
