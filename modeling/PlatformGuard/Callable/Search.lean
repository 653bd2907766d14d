/-!
# Depth-first search

A search from one node after another over a finite graph given by the successors of each
node. It records the nodes in the order in which their search ends. Nodes that reach each
other form a component.

The search carries a bound on its depth. A path without repetition is no longer than the
number of nodes, so that number is bound enough (`explore` never needs to go below a node
that was met already).
-/

namespace PlatformGuard.Search

variable {α : Type} [DecidableEq α]

/-- The state of a search. -/
structure Progress (α : Type) where
  /-- The nodes met. -/
  met : List α := []
  /-- The nodes whose search has ended, in the order of ending. -/
  finished : List α := []

/-- Searches from a node, unless it was met already. -/
def explore (successors : α → List α) : Nat → Progress α → α → Progress α
  | 0, progress, _ => progress
  | depth + 1, progress, node =>
    if node ∈ progress.met then progress
    else
      let inner := (successors node).foldl (explore successors depth)
        { progress with met := node :: progress.met }
      { inner with finished := inner.finished ++ [node] }

/-- The nodes in the order in which their search ends, when each is started from in turn. -/
def finishOrder (successors : α → List α) (nodes : List α) : List α :=
  (nodes.foldl (explore successors nodes.length) {}).finished

/-- Whether a search from one node, over at most as many nodes as there are, comes to another. -/
def reaches (successors : α → List α) (nodes : List α) (a b : α) : Bool :=
  (explore successors nodes.length {} a).finished.contains b

/-- Whether two nodes reach each other. -/
def linked (successors : α → List α) (nodes : List α) (a b : α) : Bool :=
  reaches successors nodes a b && reaches successors nodes b a

/-- The components, with the one whose search ended last in front. Within each, nodes
stand in the order in which their search ended. A component thus stands before all that
can be reached from it. -/
def components (successors : α → List α) (nodes : List α) : List (List α) :=
  let finish := finishOrder successors nodes
  finish.reverse.foldl
    (fun found node =>
      if found.any (·.contains node) then found
      else found ++ [finish.filter (linked successors nodes node)]) []

end PlatformGuard.Search
