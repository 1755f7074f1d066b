import Multilevel.Hypergraph.Basic

/-!
# Adjacency

Two nodes are connected when a hyperedge spans both. Hop layers group the nodes around some seeds
by the least number of such steps.
-/
namespace Multilevel.Hypergraph

variable {α : Type}

/-- The nodes that some hyperedge of a node spans, other than the node itself. -/
def neighbors (g : Hypergraph α) (n : NodeId) : Except Fault (List NodeId) := do
  let edges ← (← g.incident n).mapM g.edge
  return Ordered.ofList ((edges.flatMap Edge.members).filter (· ≠ n))

def connected (g : Hypergraph α) (a b : NodeId) : Except Fault Bool := do
  let _ ← g.node b
  let edges ← (← g.incident a).mapM g.edge
  return edges.any (b ∈ ·.members)

def fresh (seen found : List NodeId) (candidates : List NodeId) : List NodeId :=
  candidates.foldl (fun found c => if c ∈ seen ∨ c ∈ found then found else found ++ [c]) found

/-- The layer after a frontier: neighbours of its nodes that were not seen before, in the order in
which they are met. -/
def nextLayer (g : Hypergraph α) (seen frontier : List NodeId) : Except Fault (List NodeId) :=
  frontier.foldlM (fun found n => return fresh seen found (← g.neighbors n)) []

/-- A frontier and at most a given number of layers after it. -/
def layersFrom (g : Hypergraph α) :
    Nat → List NodeId → List NodeId → Except Fault (List (List NodeId))
  | 0, _, frontier => return [frontier]
  | steps + 1, seen, frontier => do
    -- layers end where nothing new is met, however far the bound is
    let next ← g.nextLayer seen frontier
    if next.isEmpty then return [frontier]
    else return frontier :: (← layersFrom g steps (seen ++ next) next)

/-- The hop layers around some seeds up to a distance. The seeds without repetitions are the first
layer; without seeds there is none. -/
def hopLayers (g : Hypergraph α) (seeds : List NodeId) (distance : Nat) :
    Except Fault (List (List NodeId)) := do
  if seeds.isEmpty then return []
  else match seeds.find? (g.nodeCount ≤ ·) with
    | some stranger => throw (.unknownNode stranger)
    | none =>
      let first := fresh [] [] seeds
      g.layersFrom distance first first

end Multilevel.Hypergraph
