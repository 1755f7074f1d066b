import Multilevel.Hypergraph.Parallel
import Multilevel.Proofs.Results
import Multilevel.Proofs.Ordered

/-!
# Well-formed hypergraphs

A graph keeps its incidence twice: an edge has its members, and a node has its edges. In a
well-formed graph the two agree, and every vector has the dimension of its factors. Such a graph is
what its factors, node weights and edges make of it (`WellFormed.eq_ofParts`), and construction step
by step gives the graph of the parts (`assemble_ok`).
-/
namespace Multilevel

variable {α : Type}

structure Edge.WellFormed (dim count : Nat) (e : Edge α) : Prop where
  weights : e.weights.length = dim
  increasing : e.members.Pairwise (· < ·)
  spanning : 2 ≤ e.members.length
  known : ∀ n ∈ e.members, n < count

theorem Edge.WellFormed.mono {dim count larger : Nat} {e : Edge α}
    (wellFormed : e.WellFormed dim count) (grown : count ≤ larger) : e.WellFormed dim larger :=
  { wellFormed with known := fun n member => Nat.lt_of_lt_of_le (wellFormed.known n member) grown }

def Edge.canonical (e : Edge α) : Edge α := ⟨e.weights, Ordered.ofList e.members⟩

theorem Edge.WellFormed.canonical {dim count : Nat} {e : Edge α}
    (wellFormed : e.WellFormed dim count) : e.canonical = e := by
  rw [Edge.canonical, Ordered.ofList_of_increasing wellFormed.increasing]

namespace Hypergraph

/-- The representation invariant. -/
structure WellFormed (g : Hypergraph α) : Prop where
  nodeFactor : g.factors.node ≠ []
  edgeFactor : g.factors.edge ≠ []
  nodeWeights : ∀ n ∈ g.nodes, n.weights.length = g.nodeDim
  edges : ∀ e ∈ g.edges, e.WellFormed g.edgeDim g.nodeCount
  /-- A node lists the edges that span it, in increasing order and each once. -/
  incidence : ∀ (n : NodeId) (node : Node α), g.nodes[n]? = some node →
    node.edges.Pairwise (· < ·) ∧
      ∀ e, e ∈ node.edges ↔ ∃ edge : Edge α, g.edges[e]? = some edge ∧ n ∈ edge.members

/-! ### Incidence from members -/

def edgesAt (edges : List (Edge α)) (n : NodeId) : List EdgeId :=
  (edges.zipIdx.filter fun e => decide (n ∈ e.1.members)).map Prod.snd

theorem mem_edgesAt {edges : List (Edge α)} {n : NodeId} {e : EdgeId} :
    e ∈ edgesAt edges n ↔ ∃ edge, edges[e]? = some edge ∧ n ∈ edge.members := by
  simp only [edgesAt, List.mem_map, List.mem_filter, decide_eq_true_eq]
  constructor
  · rintro ⟨⟨edge, i⟩, ⟨member, spans⟩, rfl⟩
    exact ⟨edge, List.mem_zipIdx_iff_getElem?.mp member, spans⟩
  · rintro ⟨edge, read, spans⟩
    exact ⟨(edge, e), ⟨List.mem_zipIdx_iff_getElem?.mpr read, spans⟩, rfl⟩

theorem increasing_edgesAt (edges : List (Edge α)) (n : NodeId) :
    (edgesAt edges n).Pairwise (· < ·) := by
  have numbers : edges.zipIdx.map Prod.snd = List.range' 0 edges.length := List.zipIdx_map_snd 0 edges
  have sub : (edgesAt edges n).Sublist (List.range' 0 edges.length) := by
    rw [← numbers]
    exact List.filter_sublist.map Prod.snd
  exact (List.pairwise_lt_range' 1).sublist sub

theorem edgesAt_append (edges : List (Edge α)) (edge : Edge α) (n : NodeId) :
    edgesAt (edges ++ [edge]) n =
      edgesAt edges n ++ if n ∈ edge.members then [edges.length] else [] := by
  by_cases spans : n ∈ edge.members <;> simp [edgesAt, List.zipIdx_append, spans]

theorem edgesAt_eq_nil {edges : List (Edge α)} {n : NodeId}
    (outside : ∀ e ∈ edges, n ∉ e.members) : edgesAt edges n = [] := by
  apply List.eq_nil_iff_forall_not_mem.mpr
  intro e member
  obtain ⟨edge, read, spans⟩ := mem_edgesAt.mp member
  exact outside edge (List.mem_of_getElem? read) spans

/-! ### Graphs from parts -/

def ofParts (factors : Factors α) (weights : List (List α)) (edges : List (Edge α)) :
    Hypergraph α where
  factors
  nodes := weights.mapIdx fun n w => ⟨w, edgesAt edges n⟩
  edges

structure Fits (factors : Factors α) (weights : List (List α)) (edges : List (Edge α)) : Prop where
  nodeFactor : factors.node ≠ []
  edgeFactor : factors.edge ≠ []
  nodeWeights : ∀ w ∈ weights, w.length = factors.node.length
  edges : ∀ e ∈ edges, e.WellFormed factors.edge.length weights.length

@[simp] theorem nodeCount_ofParts (factors : Factors α) (weights : List (List α))
    (edges : List (Edge α)) : (ofParts factors weights edges).nodeCount = weights.length :=
  List.length_mapIdx

@[simp] theorem weights_ofParts (factors : Factors α) (weights : List (List α))
    (edges : List (Edge α)) : (ofParts factors weights edges).nodes.map Node.weights = weights := by
  apply List.ext_getElem?
  intro n
  rw [ofParts, List.getElem?_map, List.getElem?_mapIdx]
  cases weights[n]? <;> rfl

theorem getElem?_nodes_ofParts {factors : Factors α} {weights : List (List α)}
    {edges : List (Edge α)} {n : NodeId} :
    (ofParts factors weights edges).nodes[n]? = weights[n]?.map fun w => ⟨w, edgesAt edges n⟩ :=
  List.getElem?_mapIdx

theorem Fits.wellFormed {factors : Factors α} {weights : List (List α)} {edges : List (Edge α)}
    (fits : Fits factors weights edges) : (ofParts factors weights edges).WellFormed where
  nodeFactor := fits.nodeFactor
  edgeFactor := fits.edgeFactor
  nodeWeights n member := by
    apply fits.nodeWeights
    rw [← weights_ofParts factors weights edges]
    exact List.mem_map_of_mem member
  edges e member := by
    rw [nodeCount_ofParts]
    exact fits.edges e member
  incidence n node read := by
    rw [getElem?_nodes_ofParts] at read
    obtain ⟨w, -, rfl⟩ := Option.map_eq_some_iff.mp read
    exact ⟨increasing_edgesAt edges n, fun e => mem_edgesAt⟩

theorem WellFormed.fits {g : Hypergraph α} (wellFormed : g.WellFormed) :
    Fits g.factors (g.nodes.map Node.weights) g.edges where
  nodeFactor := wellFormed.nodeFactor
  edgeFactor := wellFormed.edgeFactor
  nodeWeights w member := by
    obtain ⟨n, present, rfl⟩ := List.mem_map.mp member
    exact wellFormed.nodeWeights n present
  edges e member := by
    rw [List.length_map]
    exact wellFormed.edges e member

/-- A well-formed graph is the graph of its parts: its incidence follows from its members. -/
theorem WellFormed.eq_ofParts {g : Hypergraph α} (wellFormed : g.WellFormed) :
    g = ofParts g.factors (g.nodes.map Node.weights) g.edges := by
  have nodes : g.nodes = (g.nodes.map Node.weights).mapIdx fun n w => ⟨w, edgesAt g.edges n⟩ := by
    apply List.ext_getElem?
    intro n
    rw [List.getElem?_mapIdx, List.getElem?_map]
    cases read : g.nodes[n]? with
    | none => rfl
    | some node =>
      obtain ⟨increasing, spans⟩ := wellFormed.incidence n node read
      have same : node.edges = edgesAt g.edges n :=
        Ordered.eq_of_mem_iff increasing (increasing_edgesAt _ _)
          fun e => (spans e).trans mem_edgesAt.symm
      rw [Option.map_some, Option.map_some, ← same]
  exact congrArg (Hypergraph.mk g.factors · g.edges) nodes

end Hypergraph
end Multilevel
