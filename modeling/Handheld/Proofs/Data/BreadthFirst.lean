import Handheld.Data.BreadthFirst
import Mathlib.Data.Finset.Card
import Mathlib.Data.List.TakeWhile
import Mathlib.Logic.Relation

namespace Handheld

variable {α : Type} [DecidableEq α]

-- The nodes that have been visited and those that wait, between two steps of a search: what follows
-- a visited node has been visited or waits.
structure Frontier (next : α → List α) (nodes : Finset α) (queue seen : List α) : Prop where
  nodup : seen.Nodup
  seen_mem : ∀ a ∈ seen, a ∈ nodes
  queue_mem : ∀ a ∈ queue, a ∈ nodes
  covered : ∀ a ∈ seen, ∀ b ∈ next a, b ∈ seen ∨ b ∈ queue

theorem mem_of_dropWhile_eq_nil {queue seen : List α} (h : queue.dropWhile (· ∈ seen) = []) :
    ∀ a ∈ queue, a ∈ seen := by
  intro a ha
  simpa using List.dropWhile_eq_nil_iff.mp h a ha

theorem mem_or_mem_of_dropWhile {queue seen rest : List α} {node : α}
    (h : queue.dropWhile (· ∈ seen) = node :: rest) :
    ∀ a ∈ queue, a ∈ seen ∨ a = node ∨ a ∈ rest := by
  intro a ha
  rw [← List.takeWhile_append_dropWhile (p := (· ∈ seen)) (l := queue), h] at ha
  rcases List.mem_append.mp ha with hseen | hrest
  · exact Or.inl (by simpa using List.mem_takeWhile_imp hseen)
  · exact Or.inr (List.mem_cons.mp hrest)

theorem notMem_of_dropWhile {queue seen rest : List α} {node : α}
    (h : queue.dropWhile (· ∈ seen) = node :: rest) : node ∉ seen := by
  have hnot := List.head?_dropWhile_not (· ∈ seen) queue
  simpa [h] using hnot

theorem mem_queue_of_dropWhile {queue seen rest : List α} {node a : α}
    (h : queue.dropWhile (· ∈ seen) = node :: rest) (ha : a ∈ node :: rest) : a ∈ queue :=
  (List.dropWhile_sublist _).subset (h ▸ ha)

omit [DecidableEq α] in
theorem Frontier.start {next : α → List α} {nodes : Finset α} {queue : List α}
    (hqueue : ∀ a ∈ queue, a ∈ nodes) : Frontier next nodes queue [] :=
  ⟨List.nodup_nil, by simp, hqueue, by simp⟩

theorem Frontier.visit {next : α → List α} {nodes : Finset α} {queue seen rest : List α} {node : α}
    (hinv : Frontier next nodes queue seen) (hnext : ∀ a ∈ nodes, ∀ b ∈ next a, b ∈ nodes)
    (h : queue.dropWhile (· ∈ seen) = node :: rest) :
    Frontier next nodes (rest ++ next node) (seen ++ [node]) := by
  have hnode : node ∈ nodes := hinv.queue_mem node (mem_queue_of_dropWhile h (by simp))
  refine ⟨?_, ?_, ?_, ?_⟩
  · exact List.concat_eq_append ▸ hinv.nodup.concat (notMem_of_dropWhile h)
  · intro a ha
    rcases List.mem_append.mp ha with hseen | hlast
    · exact hinv.seen_mem a hseen
    · exact List.mem_singleton.mp hlast ▸ hnode
  · intro a ha
    rcases List.mem_append.mp ha with hrest | hafter
    · exact hinv.queue_mem a (mem_queue_of_dropWhile h (by simp [hrest]))
    · exact hnext node hnode a hafter
  · intro a ha b hb
    rcases List.mem_append.mp ha with hseen | hlast
    · rcases hinv.covered a hseen b hb with hs | hq
      · exact Or.inl (by simp [hs])
      · rcases mem_or_mem_of_dropWhile h b hq with hs | rfl | hr
        · exact Or.inl (by simp [hs])
        · exact Or.inl (by simp)
        · exact Or.inr (by simp [hr])
    · obtain rfl := List.mem_singleton.mp hlast
      exact Or.inr (by simp [hb])

theorem seen_prefix_explore (next : α → List α) (budget : Nat) (queue seen : List α) :
    seen <+: explore next budget queue seen := by
  induction budget generalizing queue seen with
  | zero => exact List.prefix_refl seen
  | succ budget ih =>
      simp only [explore]
      split
      · exact List.prefix_refl seen
      · exact (List.prefix_append seen _).trans (ih _ _)

-- With as many visits left as there are nodes to visit, a search ends because nothing waits any more.
theorem explore_closed {next : α → List α} {nodes : Finset α} {budget : Nat} {queue seen : List α}
    (hinv : Frontier next nodes queue seen) (hnext : ∀ a ∈ nodes, ∀ b ∈ next a, b ∈ nodes)
    (hbudget : nodes.card ≤ budget + seen.length) :
    (∀ a ∈ queue, a ∈ explore next budget queue seen) ∧
      ∀ a ∈ explore next budget queue seen, ∀ b ∈ next a, b ∈ explore next budget queue seen := by
  induction budget generalizing queue seen with
  | zero =>
      have hsub : seen.toFinset ⊆ nodes := fun a ha => hinv.seen_mem a (List.mem_toFinset.mp ha)
      have hcard : nodes.card ≤ seen.toFinset.card := by
        rw [List.toFinset_card_of_nodup hinv.nodup]
        omega
      have hall := Finset.eq_of_subset_of_card_le hsub hcard
      have hmem : ∀ a ∈ nodes, a ∈ seen := fun a ha => List.mem_toFinset.mp (hall ▸ ha)
      exact ⟨fun a ha => hmem a (hinv.queue_mem a ha),
        fun a ha b hb => hmem b (hnext a (hinv.seen_mem a ha) b hb)⟩
  | succ budget ih =>
      simp only [explore]
      split
      · rename_i hdrop
        have hmem := mem_of_dropWhile_eq_nil hdrop
        refine ⟨hmem, fun a ha b hb => ?_⟩
        exact (hinv.covered a ha b hb).elim id (hmem b)
      · rename_i node rest hdrop
        have hlen : nodes.card ≤ budget + (seen ++ [node]).length := by simp; omega
        obtain ⟨hqueue, hclosed⟩ := ih (hinv.visit hnext hdrop) hlen
        refine ⟨fun a ha => ?_, hclosed⟩
        have hseen := (seen_prefix_explore next budget (rest ++ next node) (seen ++ [node])).subset
        rcases mem_or_mem_of_dropWhile hdrop a ha with hs | rfl | hr
        · exact hseen (by simp [hs])
        · exact hseen (by simp)
        · exact hqueue a (by simp [hr])

-- A search finds only what can be reached.
theorem reaches_of_mem_explore {next : α → List α} {budget : Nat} {queue seen : List α} {a : α}
    (h : a ∈ explore next budget queue seen) :
    a ∈ seen ∨ ∃ q ∈ queue, Relation.ReflTransGen (fun a b => b ∈ next a) q a := by
  induction budget generalizing queue seen with
  | zero => exact Or.inl h
  | succ budget ih =>
      simp only [explore] at h
      split at h
      · exact Or.inl h
      · rename_i node rest hdrop
        have hnode : node ∈ queue := mem_queue_of_dropWhile hdrop (by simp)
        rcases ih h with hseen | ⟨q, hq, hreach⟩
        · rcases List.mem_append.mp hseen with hs | hlast
          · exact Or.inl hs
          · exact Or.inr ⟨node, hnode, List.mem_singleton.mp hlast ▸ .refl⟩
        · rcases List.mem_append.mp hq with hr | hafter
          · exact Or.inr ⟨q, mem_queue_of_dropWhile hdrop (by simp [hr]), hreach⟩
          · exact Or.inr ⟨node, hnode, hreach.head hafter⟩

theorem nodup_explore (next : α → List α) (budget : Nat) (queue seen : List α) (h : seen.Nodup) :
    (explore next budget queue seen).Nodup := by
  induction budget generalizing queue seen with
  | zero => exact h
  | succ budget ih =>
      simp only [explore]
      split
      · exact h
      · rename_i hdrop
        exact ih _ _ (List.concat_eq_append ▸ h.concat (notMem_of_dropWhile hdrop))

-- With a budget for all nodes there are, a search finds exactly what can be reached.
theorem mem_explore_iff {next : α → List α} (nodes : Finset α) {budget : Nat} {queue : List α} {a : α}
    (hqueue : ∀ a ∈ queue, a ∈ nodes) (hnext : ∀ a ∈ nodes, ∀ b ∈ next a, b ∈ nodes)
    (hbudget : nodes.card ≤ budget) :
    a ∈ explore next budget queue [] ↔
      ∃ q ∈ queue, Relation.ReflTransGen (fun a b => b ∈ next a) q a := by
  constructor
  · intro h
    exact (reaches_of_mem_explore h).resolve_left (by simp)
  · rintro ⟨q, hq, hreach⟩
    obtain ⟨hmem, hclosed⟩ := explore_closed (Frontier.start hqueue) hnext (by simpa using hbudget)
    induction hreach with
    | refl => exact hmem q hq
    | tail _ hstep ih => exact hclosed _ ih _ hstep

end Handheld
