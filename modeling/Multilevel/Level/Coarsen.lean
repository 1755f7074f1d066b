import Multilevel.Level.Basic
import Multilevel.Hypergraph.Cut

/-!
# Coarsening

A child level has one node for each cluster of parent nodes, and it keeps each hyperedge of the
parent that still spans two of its nodes. Parent nodes outside all clusters are dropped, or, where
they share a hyperedge with a cluster, kept as virtual nodes so that the hyperedge survives. The
weights of a child node are the sum over its cluster, or one such sum for each block.
-/
namespace Multilevel

structure CoarsenOptions where
  /-- Whether external nodes on the boundary of the clusters become virtual nodes. -/
  keepBoundary : Bool := false
  deriving DecidableEq, Repr

/-- Clusters of parent nodes, by the numbers of the child nodes they become. -/
abbrev Clustering := List (List NodeId)

/-- For each parent node the child node it belongs to, if any. -/
abbrev Placement := List (Option NodeId)

namespace Placement

def node? (placement : Placement) (n : NodeId) : Option NodeId := (placement[n]?).join

end Placement

namespace Origin

def cluster (members : List NodeId) : Origin := ⟨members, false⟩

def boundary (n : NodeId) : Origin := ⟨[n], true⟩

end Origin

variable {α : Type}

namespace Level

/-! ### Clusters -/

/-- Puts a parent node into a cluster. It has to exist, must not be in a cluster already, and must
not be virtual. -/
def assign (parent : Level α) (cluster : Nat) (placement : Placement) (n : NodeId) :
    Except Fault Placement :=
  -- a node in a second cluster is reported as such even if it is virtual
  match placement[n]? with
  | none => .error (.parentOutOfRange cluster n parent.graph.nodeCount)
  | some (some earlier) => .error (.duplicateMember n earlier cluster)
  | some none =>
    match parent.tier.virtual[n]? with
    | some true => .error (.virtualMember cluster n)
    | _ => .ok (placement.set n (some cluster))

def placement (parent : Level α) (clusters : Clustering) : Except Fault Placement :=
  clusters.zipIdx.foldlM
    (fun placement (members, cluster) => members.foldlM (parent.assign cluster) placement)
    (List.replicate parent.graph.nodeCount none)

/-- The block that the fixed members of a cluster agree on. -/
def fixedBlock (parent : Level α) (cluster : Nat) (members : List NodeId) :
    Except Fault (Option BlockId) :=
  match Ordered.ofList (members.filterMap parent.fixed.get?) with
  | [] => .ok none
  | [block] => .ok (some block)
  | blocks => .error (.ambiguousFixedBlock cluster blocks)

def addCluster (parent : Level α) (weigh : List NodeId → Except Fault (List α)) (child : Tier α)
    (members : List NodeId) : Except Fault (Tier α) := do
  -- the weights come first: what is wrong with them is reported before a conflict of blocks
  let weights ← weigh members
  let cluster := child.graph.nodeCount
  let block ← parent.fixedBlock cluster members
  let child ← child.addNode weights (.cluster members)
  match block with
  | some b => return { child with fixed := child.fixed ++ [(cluster, b)] }
  | none => return child

end Level

/-! ### Hyperedges -/

/-- A child whose hyperedges are being made, and the node of it that each parent node belongs to so
far. -/
structure Sweep (α : Type) where
  child : Tier α
  placement : Placement

namespace Sweep

/-- Adds the node of an external member to those an edge spans. The first edge that comes to an
external node makes a virtual node for it. -/
def reach [Zero α] (found : Sweep α × List NodeId) (n : NodeId) :
    Except Fault (Sweep α × List NodeId) :=
  let (s, spanned) := found
  match s.placement.node? n with
  | some known => .ok (s, Ordered.insert known spanned)
  | none => do
    let fresh := s.child.graph.nodeCount
    let child ← s.child.addNode (Weight.zeros s.child.graph.nodeDim) (.boundary n)
    return (⟨child, s.placement.set n (some fresh)⟩, Ordered.insert fresh spanned)

/-- The nodes of the child that a parent edge spans. The first `real` nodes of the child are
clusters, so that a member placed behind them is as external as one without a place. -/
def span [Zero α] (options : CoarsenOptions) (real : Nat) (s : Sweep α) (e : Edge α) :
    Except Fault (Sweep α × List NodeId) :=
  let cluster? n := (s.placement.node? n).filter (· < real)
  let inside := Ordered.ofList (e.members.filterMap cluster?)
  let external := e.members.filter fun n => (cluster? n).isNone
  if options.keepBoundary && !inside.isEmpty && !external.isEmpty then
    external.foldlM reach (s, inside)
  else .ok (s, inside)

/-- Goes on to the next parent edge, which is left out if it spans a single node. -/
def addImage [Zero α] (options : CoarsenOptions) (real : Nat) (s : Sweep α) (e : Edge α) :
    Except Fault (Sweep α) := do
  let (s, spanned) ← s.span options real e
  if 1 < spanned.length then
    return { s with child := ← s.child.addEdge spanned e.weights }
  else return s

end Sweep

namespace Level

/-! ### Children -/

def clusterWeight [Zero α] [Add α] (parent : Level α) (members : List NodeId) :
    Except Fault (List α) := do
  let weights ← members.mapM parent.graph.nodeWeights
  Weight.sum parent.graph.nodeDim weights

def coarsen [Zero α] [Add α] (parent : Level α) (clusters : Clustering)
    (options : CoarsenOptions := {}) : Except Fault (Level α) := do
  let placement ← parent.placement clusters
  let child : Tier α := { graph := ← Hypergraph.empty parent.graph.factors }
  let child ← clusters.foldlM (parent.addCluster parent.clusterWeight) child
  let real := child.graph.nodeCount
  let s ← parent.graph.edges.foldlM (Sweep.addImage options real) ⟨child, placement⟩
  return .child s.child parent

/-! ### Weights by block -/

/-- Adds a cluster member to the slot of its block. The slots lie behind one another. -/
def addToSlot [Add α] (parent : Level α) (blockCount : Nat) (p : Partition) (slots : List α)
    (n : NodeId) : Except Fault (List α) :=
  match (p.block? n).filter (· < blockCount) with
  | none => .error (.invalidParentBlock n blockCount)
  | some b => do
    let dim := parent.graph.nodeDim
    Weight.addWithin (b * dim) dim slots (← parent.graph.nodeWeights n)

def slotWeights [Zero α] [Add α] (parent : Level α) (blockCount : Nat) (p : Partition)
    (members : List NodeId) : Except Fault (List α) :=
  members.foldlM (parent.addToSlot blockCount p) (Weight.zeros (parent.graph.nodeDim * blockCount))

/-- Appends what becomes of a parent edge, if it spans two of the clusters. -/
def addSpanned (placement : Placement) (child : Tier α) (e : Edge α) : Except Fault (Tier α) :=
  let spanned := Ordered.ofList (e.members.filterMap placement.node?)
  if 1 < spanned.length then child.addEdge spanned e.weights else .ok child

/-- A child with one node per cluster, whose weights are split by the blocks of a partition of the
parent. -/
def coarsenByBlock [Zero α] [Add α] (parent : Level α) (clusters : Clustering) (blockCount : Nat)
    (p : Partition) : Except Fault (Level α) := do
  if blockCount = 0 then .error .zeroBlocks
  else
    parent.graph.checkPartition p
    let placement ← parent.placement clusters
    let factors : Factors α :=
      ⟨(List.replicate blockCount parent.graph.factors.node).flatten, parent.graph.factors.edge⟩
    let child : Tier α := { graph := ← Hypergraph.empty factors }
    let child ← clusters.foldlM (parent.addCluster (parent.slotWeights blockCount p)) child
    let child ← parent.graph.edges.foldlM (addSpanned placement) child
    return .child child parent

end Level
end Multilevel
