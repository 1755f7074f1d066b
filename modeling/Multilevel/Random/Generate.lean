import Multilevel.Random.Stream
import Multilevel.Hypergraph.Parallel
import Multilevel.Level.Coarsen

namespace Multilevel.Random

variable {α : Type}

def maxWeight : Nat := 4

def weights [NatCast α] (dim : Nat) : Draw (List α) :=
  (List.replicate dim ()).mapM fun _ => do return ((1 + (← below32 maxWeight) : Nat) : α)

/-- A random edge on some nodes, whose degree is at least two. -/
def edge [NatCast α] (nodes dim maxDegree : Nat) : Draw (Edge α) := do
  -- a degree is drawn even if there is only one to choose
  let degree := 2 + (← below64 (maxDegree - 1))
  let members ← choose nodes degree
  return ⟨← weights dim, members⟩

def parts [NatCast α] (factors : Factors α) (nodes edges maxDegree : Nat) :
    Draw (List (List α) × List (Edge α)) := do
  let weighed ← (List.replicate nodes ()).mapM fun _ => weights factors.node.length
  let top := max 2 (min maxDegree (max 2 nodes))
  let spanned ← (List.replicate edges ()).mapM fun _ => edge nodes factors.edge.length top
  return (weighed, spanned)

def graph [NatCast α] (factors : Factors α) (nodes edges maxDegree : Nat) (s : Stream) :
    Except Fault (Hypergraph α × Stream) := do
  if nodes < 2 ∧ 0 < edges then .error (.tooFewNodes nodes)
  else
    factors.check
    let ((weighed, spanned), rest) := (parts factors nodes edges maxDegree).run s
    return (← Hypergraph.assemble factors weighed spanned, rest)

/-- Deals the nodes of a list to clusters. The first ones go to a cluster each. -/
def deal (count : Nat) (order : List NodeId) : Draw Clustering := do
  let clusters ← order.zipIdx.foldlM
    (fun (clusters : Clustering) (n, i) => do
      let slot ← if i < count then pure i else below64 count
      return clusters.modify slot (· ++ [n]))
    (List.replicate count [])
  return clusters.map (·.mergeSort (· ≤ ·))

/-- A random clustering of all nodes without empty clusters, and the stream behind it. -/
def clustering (nodes count : Nat) (s : Stream) : Except Fault (Clustering × Stream) :=
  if count = 0 ∨ nodes < count then .error (.clusterCount count nodes)
  else .ok ((do deal count (← shuffle (List.range nodes))).run s)

end Multilevel.Random
