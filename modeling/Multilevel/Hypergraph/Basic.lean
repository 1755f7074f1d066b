import Multilevel.Ordered
import Multilevel.Weight

/-!
# Weighted hypergraphs

Nodes and hyperedges are numbered from zero in order of their creation and are never removed. Each
carries a weight vector whose length the factors of the graph fix; the factors turn a vector into
one cost. A hyperedge spans a set of at least two nodes, and a node lists the edges that span it.
-/
namespace Multilevel

/-- The factors that turn weight vectors into costs. Their lengths are the dimensions of a
graph. -/
structure Factors (α : Type) where
  node : List α
  edge : List α
  deriving DecidableEq

namespace Factors

variable {α : Type}

def uniform [One α] (nodeDim edgeDim : Nat) : Factors α :=
  ⟨List.replicate nodeDim 1, List.replicate edgeDim 1⟩

def check (f : Factors α) : Except Fault Unit :=
  if f.node.isEmpty then .error (.emptyFactor .node)
  else if f.edge.isEmpty then .error (.emptyFactor .edge)
  else .ok ()

end Factors

/-- A node: its weights, and the edges that span it in order of their creation. -/
structure Node (α : Type) where
  weights : List α
  edges : List EdgeId
  deriving DecidableEq

/-- A hyperedge: its weights, and the nodes it spans in increasing order. -/
structure Edge (α : Type) where
  weights : List α
  members : List NodeId
  deriving DecidableEq

structure Hypergraph (α : Type) where
  factors : Factors α
  nodes : List (Node α) := []
  edges : List (Edge α) := []
  deriving DecidableEq

namespace Hypergraph

variable {α : Type}

def nodeCount (g : Hypergraph α) : Nat := g.nodes.length

def edgeCount (g : Hypergraph α) : Nat := g.edges.length

def nodeDim (g : Hypergraph α) : Nat := g.factors.node.length

def edgeDim (g : Hypergraph α) : Nat := g.factors.edge.length

/-! ### Construction -/

def empty (factors : Factors α) : Except Fault (Hypergraph α) :=
  (fun _ => { factors }) <$> factors.check

def unit [One α] : Hypergraph α := { factors := .uniform 1 1 }

def checkNodeWeights (g : Hypergraph α) (weights : List α) : Except Fault Unit :=
  if weights.length = g.nodeDim then .ok ()
  else .error (.dimension .nodeWeights g.nodeDim weights.length)

def checkEdgeWeights (g : Hypergraph α) (weights : List α) : Except Fault Unit :=
  if weights.length = g.edgeDim then .ok ()
  else .error (.dimension .edgeWeights g.edgeDim weights.length)

/-- Appends a node, whose number is the node count before. -/
def addNode (g : Hypergraph α) (weights : List α) : Except Fault (Hypergraph α) := do
  g.checkNodeWeights weights
  return { g with nodes := g.nodes ++ [⟨weights, []⟩] }

def Node.touch (edge : EdgeId) (members : List NodeId) (n : NodeId) (node : Node α) : Node α :=
  if n ∈ members then { node with edges := node.edges ++ [edge] } else node

/-- Appends an edge whose members are known to be an ordered set of nodes. -/
def append (g : Hypergraph α) (edge : Edge α) : Hypergraph α where
  factors := g.factors
  nodes := g.nodes.mapIdx (Node.touch g.edgeCount edge.members)
  edges := g.edges ++ [edge]

/-- Appends a hyperedge, whose number is the edge count before. The members count as a set, which
needs two elements that are nodes of the graph. -/
def addEdge (g : Hypergraph α) (members : List NodeId) (weights : List α) :
    Except Fault (Hypergraph α) := do
  g.checkEdgeWeights weights
  -- the set is made first, so that a member listed twice counts once
  let members := Ordered.ofList members
  if members.length < 2 then .error (.tooFewMembers members.length)
  else match members.find? (g.nodeCount ≤ ·) with
    | some stranger => .error (.unknownMember stranger g.nodeCount)
    | none => .ok (g.append ⟨weights, members⟩)

/-! ### Access -/

def node (g : Hypergraph α) (n : NodeId) : Except Fault (Node α) :=
  match g.nodes[n]? with
  | some node => .ok node
  | none => .error (.unknownNode n)

def edge (g : Hypergraph α) (e : EdgeId) : Except Fault (Edge α) :=
  match g.edges[e]? with
  | some edge => .ok edge
  | none => .error (.unknownEdge e)

def nodeWeights (g : Hypergraph α) (n : NodeId) : Except Fault (List α) := Node.weights <$> g.node n

def edgeWeights (g : Hypergraph α) (e : EdgeId) : Except Fault (List α) := Edge.weights <$> g.edge e

def members (g : Hypergraph α) (e : EdgeId) : Except Fault (List NodeId) :=
  Edge.members <$> g.edge e

def incident (g : Hypergraph α) (n : NodeId) : Except Fault (List EdgeId) := Node.edges <$> g.node n

def degree (g : Hypergraph α) (e : EdgeId) : Except Fault Nat := List.length <$> g.members e

def maxDegree (g : Hypergraph α) : Nat :=
  g.edges.foldl (fun d e => max d e.members.length) 0

/-- Whether two graphs have the same factors, weights, members and incidence, where scalars are
compared as numbers. -/
def same [BEq α] (g h : Hypergraph α) : Bool :=
  g.factors.node == h.factors.node && g.factors.edge == h.factors.edge
    && g.nodes.map Node.weights == h.nodes.map Node.weights
    && g.nodes.map Node.edges == h.nodes.map Node.edges
    && g.edges.map Edge.weights == h.edges.map Edge.weights
    && g.edges.map Edge.members == h.edges.map Edge.members

/-! ### Changes -/

def setNodeWeights (g : Hypergraph α) (n : NodeId) (weights : List α) :
    Except Fault (Hypergraph α) := do
  g.checkNodeWeights weights
  let node ← g.node n
  return { g with nodes := g.nodes.set n { node with weights } }

def setEdgeWeights (g : Hypergraph α) (e : EdgeId) (weights : List α) :
    Except Fault (Hypergraph α) := do
  g.checkEdgeWeights weights
  let edge ← g.edge e
  return { g with edges := g.edges.set e { edge with weights } }

/-- Replaces the node factors. Node weights are cut off or filled up with ones to the new
dimension. -/
def setNodeFactor [One α] (g : Hypergraph α) (factor : List α) : Except Fault (Hypergraph α) :=
  if factor.isEmpty then .error (.emptyFactor .node)
  else .ok
    { g with
      factors := { g.factors with node := factor }
      nodes := g.nodes.map fun n => { n with weights := Weight.reshape factor.length n.weights } }

/-- Replaces the edge factors. Edge weights are cut off or filled up with ones to the new
dimension. -/
def setEdgeFactor [One α] (g : Hypergraph α) (factor : List α) : Except Fault (Hypergraph α) :=
  if factor.isEmpty then .error (.emptyFactor .edge)
  else .ok
    { g with
      factors := { g.factors with edge := factor }
      edges := g.edges.map fun e => { e with weights := Weight.reshape factor.length e.weights } }

/-! ### Costs and totals -/

section
variable [Zero α] [Neg α] [Add α] [Mul α]

def nodeCost (g : Hypergraph α) (weights : List α) : Except Fault α :=
  Weight.scalar weights g.factors.node

def edgeCost (g : Hypergraph α) (weights : List α) : Except Fault α :=
  Weight.scalar weights g.factors.edge

def costOfNode (g : Hypergraph α) (n : NodeId) : Except Fault α := do
  g.nodeCost (← g.nodeWeights n)

def costOfEdge (g : Hypergraph α) (e : EdgeId) : Except Fault α := do
  g.edgeCost (← g.edgeWeights e)

end

def maxNodeWeight [Zero α] [LE α] [DecidableLE α] (g : Hypergraph α) : Except Fault (List α) :=
  (g.nodes.map Node.weights).foldlM Weight.max (Weight.zeros g.nodeDim)

section
variable [Zero α] [Add α]

def totalNodeWeight (g : Hypergraph α) : Except Fault (List α) :=
  Weight.sum g.nodeDim (g.nodes.map Node.weights)

def totalEdgeWeight (g : Hypergraph α) : Except Fault (List α) :=
  Weight.sum g.edgeDim (g.edges.map Edge.weights)

def memberWeight (g : Hypergraph α) (e : EdgeId) : Except Fault (List α) := do
  let weights ← (← g.members e).mapM g.nodeWeights
  Weight.sum g.nodeDim weights

end
end Hypergraph
end Multilevel
