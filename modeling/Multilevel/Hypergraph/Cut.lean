import Multilevel.Hypergraph.Basic
import Multilevel.Sample

/-!
# Partitions

A partition assigns a block to each node, or none. A hyperedge is cut when its assigned members lie
in at least two blocks. The metrics here say how much is cut and how evenly the blocks are filled.
-/
namespace Multilevel

abbrev Partition := List (Option BlockId)

namespace Partition

def block? (p : Partition) (n : NodeId) : Option BlockId := (p[n]?).join

/-- One more than the largest block in use, `0` if none is. -/
def blockCount (p : Partition) : Nat :=
  p.foldl (fun count b => match b with | none => count | some b => max count (b + 1)) 0

end Partition

namespace Edge

variable {α : Type}

def assigned (e : Edge α) (p : Partition) : List BlockId := e.members.filterMap p.block?

def blocks (e : Edge α) (p : Partition) : List BlockId := Ordered.ofList (e.assigned p)

/-- Whether an edge is cut: some assigned member is not in the block of the first. -/
def isCut (e : Edge α) (p : Partition) : Bool :=
  match e.assigned p with
  | [] => false
  | first :: rest => rest.any (· ≠ first)

end Edge

namespace Hypergraph

variable {α : Type}

def checkPartition (g : Hypergraph α) (p : Partition) : Except Fault Unit :=
  if p.length = g.nodeCount then .ok ()
  else .error (.partitionLength g.nodeCount p.length)

def addAt [Add α] (sizes : List (List α)) (b : BlockId) (weights : List α) :
    Except Fault (List (List α)) :=
  match sizes[b]? with
  | some size => return sizes.set b (← Weight.add size weights)
  | none => return sizes

section
variable [Zero α] [Add α]

def cut (g : Hypergraph α) (p : Partition) : Except Fault (List α) := do
  g.checkPartition p
  Weight.sum g.edgeDim ((g.edges.filter (·.isCut p)).map Edge.weights)

def cutAt (g : Hypergraph α) (p : Partition) (n : NodeId) : Except Fault (List α) := do
  g.checkPartition p
  let edges ← (← g.incident n).mapM g.edge
  Weight.sum g.edgeDim ((edges.filter (·.isCut p)).map Edge.weights)

def isCutEdge (g : Hypergraph α) (e : EdgeId) (p : Partition) : Except Fault Bool := do
  g.checkPartition p
  return (← g.edge e).isCut p

/-- The sum of the node weights in each block. Every node must be assigned. -/
def blockWeights (g : Hypergraph α) (p : Partition) : Except Fault (List (List α)) := do
  g.checkPartition p
  -- in node order, so that the first node without a block is the one reported
  (g.nodes.zip p).zipIdx.foldlM
    (fun sizes ((node, block), n) =>
      match block with
      | none => .error (.unassignedNode n)
      | some b => addAt sizes b node.weights)
    (List.replicate p.blockCount (Weight.zeros g.nodeDim))

/-- For each block the sum of the weights of the cut edges that touch it. -/
def blockCuts (g : Hypergraph α) (p : Partition) : Except Fault (List (List α)) := do
  g.checkPartition p
  (g.edges.filter (·.isCut p)).foldlM
    (fun sizes e => (e.blocks p).foldlM (fun sizes b => addAt sizes b e.weights) sizes)
    (List.replicate p.blockCount (Weight.zeros g.edgeDim))

end

/-- For each block and dimension, how far the weight of the block is from the mean over the
blocks. -/
def blockImbalance [Zero α] [Neg α] [Add α] [Sub α] [Div α] [NatCast α] [LE α] [DecidableLE α]
    [Gauge α] (g : Hypergraph α) (p : Partition) : Except Fault (List (List α)) := do
  let sizes ← g.blockWeights p
  -- one sample for each dimension: the weights of all blocks in it
  let columns := (List.range g.nodeDim).map fun d => sizes.filterMap (·[d]?)
  return sizes.map fun size => List.zipWith Sample.imbalance size columns

end Hypergraph
end Multilevel
