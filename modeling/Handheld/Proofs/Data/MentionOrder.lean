import Handheld.Proofs.Data.BreadthFirst

namespace Handheld

variable {α : Type} [DecidableEq α] {next other : α → List α} {start : α} {order order' seen : List α}

-- The start is mentioned at the outset; then each node mentions what follows it, node by node.
def firstNew (next : α → List α) (start : α) (seen : List α) : Option α :=
  (start :: seen.flatMap next).find? fun node => node ∉ seen

-- The nodes that are mentioned, in the order of their first mention: next in the order is always the first
-- one mentioned so far that it does not have yet, and the order ends when it has them all.
def InMentionOrder (next : α → List α) (start : α) (order : List α) : Prop :=
  ∀ count, order[count]? = firstNew next start (order.take count)

theorem exists_of_dropWhile {queue rest : List α} {node : α}
    (h : queue.dropWhile (· ∈ seen) = node :: rest) :
    ∃ passed, queue = passed ++ node :: rest ∧ ∀ a ∈ passed, a ∈ seen := by
  refine ⟨queue.takeWhile (· ∈ seen), ?_, fun a ha => ?_⟩
  · rw [← h, List.takeWhile_append_dropWhile]
  · simpa using List.mem_takeWhile_imp ha

theorem firstNew_eq_none (h : ∀ a ∈ start :: seen.flatMap next, a ∈ seen) :
    firstNew next start seen = none := by
  rw [firstNew, List.find?_eq_none]
  intro a ha
  simpa using h a ha

theorem firstNew_eq_some {passed rest : List α} {node : α}
    (hmentioned : start :: seen.flatMap next = passed ++ node :: rest)
    (hpassed : ∀ a ∈ passed, a ∈ seen) (hnode : node ∉ seen) : firstNew next start seen = some node := by
  rw [firstNew, hmentioned, List.find?_eq_some_iff_append]
  refine ⟨by simpa using hnode, passed, rest, rfl, fun a ha => ?_⟩
  simpa using hpassed a ha

-- What waits are the mentions of the visited nodes less those that have been passed over, and only visited
-- nodes are passed over. So the first new node that waits is the first new one mentioned.
theorem getElem?_explore {nodes : Finset α} {budget : Nat} {queue passed : List α}
    (hinv : Frontier next nodes queue seen) (hnext : ∀ a ∈ nodes, ∀ b ∈ next a, b ∈ nodes)
    (hbudget : nodes.card ≤ budget + seen.length)
    (hmentioned : start :: seen.flatMap next = passed ++ queue) (hpassed : ∀ a ∈ passed, a ∈ seen)
    {count : Nat} (hcount : seen.length ≤ count) :
    (explore next budget queue seen)[count]? =
      firstNew next start ((explore next budget queue seen).take count) := by
  induction budget generalizing queue passed seen with
  | zero =>
      have hqueue : ∀ a ∈ queue, a ∈ seen := (explore_closed hinv hnext hbudget).1
      have hnone : firstNew next start seen = none :=
        firstNew_eq_none (hmentioned ▸ List.forall_mem_append.mpr ⟨hpassed, hqueue⟩)
      rw [explore, List.getElem?_eq_none hcount, List.take_of_length_le hcount, hnone]
  | succ budget ih =>
      cases hdrop : queue.dropWhile (· ∈ seen) with
      | nil =>
          have hqueue : ∀ a ∈ queue, a ∈ seen := mem_of_dropWhile_eq_nil hdrop
          have hnone : firstNew next start seen = none :=
            firstNew_eq_none (hmentioned ▸ List.forall_mem_append.mpr ⟨hpassed, hqueue⟩)
          have hend : explore next (budget + 1) queue seen = seen := by simp only [explore, hdrop]
          rw [hend, List.getElem?_eq_none hcount, List.take_of_length_le hcount, hnone]
      | cons node rest =>
          have hvisit : explore next (budget + 1) queue seen =
              explore next budget (rest ++ next node) (seen ++ [node]) := by simp only [explore, hdrop]
          obtain ⟨skipped, rfl, hskipped⟩ := exists_of_dropWhile hdrop
          have hpassed' : ∀ a ∈ passed ++ skipped, a ∈ seen :=
            List.forall_mem_append.mpr ⟨hpassed, hskipped⟩
          rw [← List.append_assoc] at hmentioned
          rw [hvisit]
          by_cases hlast : count = seen.length
          · obtain ⟨others, hothers⟩ :=
              seen_prefix_explore next budget (rest ++ next node) (seen ++ [node])
            have hnew := firstNew_eq_some hmentioned hpassed' (notMem_of_dropWhile hdrop)
            rw [← hothers, hlast, List.append_assoc, List.take_left, hnew]
            simp
          · have hlength : (seen ++ [node]).length = seen.length + 1 := by simp
            have hmentioned' : start :: (seen ++ [node]).flatMap next =
                (passed ++ skipped ++ [node]) ++ (rest ++ next node) := by
              rw [List.flatMap_append, List.flatMap_singleton, ← List.cons_append, hmentioned]
              simp
            have hseen : ∀ a ∈ passed ++ skipped ++ [node], a ∈ seen ++ [node] := by
              intro a ha
              rcases List.mem_append.mp ha with hfirst | hnode
              · exact List.mem_append_left _ (hpassed' a hfirst)
              · exact List.mem_append_right _ hnode
            apply ih (hinv.visit hnext hdrop) (by omega) hmentioned' hseen
            omega

-- A search visits the nodes in the order of their first mention.
theorem inMentionOrder_explore {nodes : Finset α} {budget : Nat} (hstart : start ∈ nodes)
    (hnext : ∀ a ∈ nodes, ∀ b ∈ next a, b ∈ nodes) (hbudget : nodes.card ≤ budget) :
    InMentionOrder next start (explore next budget [start] []) := by
  intro count
  have hinv : Frontier next nodes [start] [] := Frontier.start (by simpa using hstart)
  have hbudget' : nodes.card ≤ budget + ([] : List α).length := by simpa using hbudget
  have hmentioned : start :: ([] : List α).flatMap next = [] ++ [start] := rfl
  exact getElem?_explore hinv hnext hbudget' hmentioned (by simp) (Nat.zero_le count)

-- There is only one such order: what comes next is settled by what is there.
theorem InMentionOrder.unique (h : InMentionOrder next start order)
    (h' : InMentionOrder next start order') : order = order' := by
  have htake (count : Nat) : order.take count = order'.take count := by
    induction count with
    | zero => rfl
    | succ count ih =>
        have hsame : order[count]? = order'[count]? := by rw [h count, h' count, ih]
        rw [List.take_add_one, List.take_add_one, ih, hsame]
  apply List.ext_getElem?
  intro count
  rw [h count, h' count, htake count]

theorem InMentionOrder.congr (h : InMentionOrder next start order)
    (hsame : ∀ a ∈ order, other a = next a) : InMentionOrder other start order := by
  intro count
  have hmentions : (order.take count).flatMap other = (order.take count).flatMap next :=
    List.flatMap_congr fun a ha => hsame a (List.mem_of_mem_take ha)
  rw [firstNew, hmentions]
  exact h count

end Handheld
