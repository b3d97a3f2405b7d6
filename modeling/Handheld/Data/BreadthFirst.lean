namespace Handheld

variable {α : Type} [DecidableEq α]

-- Breadth-first search: the nodes in `seen`, then those reachable from `queue`
-- in the order of their first mention. Each visited node takes one unit of the
-- budget, so a budget of the number of reachable nodes visits them all.
def explore (next : α → List α) : (budget : Nat) → (queue seen : List α) → List α
  | 0, _, seen => seen
  | budget + 1, queue, seen =>
    match queue.dropWhile (· ∈ seen) with
    | [] => seen
    | node :: rest => explore next budget (rest ++ next node) (seen ++ [node])

end Handheld
