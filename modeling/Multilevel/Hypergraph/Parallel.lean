import Multilevel.Hypergraph.Basic

namespace Multilevel.Hypergraph

variable {α : Type}

/-- Adds an edge to a list of edges with different members: to the weight of the one that spans
the same nodes, or at the end. -/
def absorb [Add α] (edge : Edge α) : List (Edge α) → Except Fault (List (Edge α))
  | [] => return [edge]
  | e :: rest =>
    if e.members = edge.members then
      return { e with weights := ← Weight.add e.weights edge.weights } :: rest
    else return e :: (← absorb edge rest)

def mergeParallel [Add α] (edges : List (Edge α)) : Except Fault (List (Edge α)) :=
  edges.foldlM (fun merged e => absorb e merged) []

/-- A graph from its parts, through the checks of its construction. -/
def assemble (factors : Factors α) (nodes : List (List α)) (edges : List (Edge α)) :
    Except Fault (Hypergraph α) := do
  let g ← nodes.foldlM addNode (← empty factors)
  edges.foldlM (fun g e => g.addEdge e.members e.weights) g

def compressed [Add α] (g : Hypergraph α) : Except Fault (Hypergraph α) := do
  assemble g.factors (g.nodes.map Node.weights) (← mergeParallel g.edges)

end Multilevel.Hypergraph
