/-!
# Depth-first walks

The order in which a depth-first walk meets the nodes of a graph that may have cycles and shared
nodes. The nodes still to be visited are kept in one list, the successors of a node in front, so
the walk is one plain recursion. A node met again is reported as such and not entered a second
time.
-/

namespace Wiring.Walk

variable {α κ : Type}

/-- The nodes met on a walk, each with whether it is met for the first time. Nodes are told apart
by their key. The walk is complete when `fuel` is at least the number of nodes met, which is at
most the length of `todo` plus the number of edges between distinct nodes. -/
def meetings [DecidableEq κ] (key : α → κ) (next : α → List α) :
    (fuel : Nat) → (todo : List α) → (seen : List κ) → List (α × Bool)
  | 0, _, _ => []
  | _ + 1, [], _ => []
  | fuel + 1, a :: todo, seen =>
    if key a ∈ seen then (a, false) :: meetings key next fuel todo seen
    else (a, true) :: meetings key next fuel (next a ++ todo) (key a :: seen)

/-- The nodes met on a walk, each once. -/
def preorder [DecidableEq κ] (key : α → κ) (next : α → List α) (fuel : Nat) (todo : List α) :
    List α :=
  (meetings key next fuel todo []).filterMap fun (a, isNew) => if isNew then some a else none

end Wiring.Walk
