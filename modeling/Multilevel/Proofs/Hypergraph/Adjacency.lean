import Multilevel.Hypergraph.Adjacency
import Multilevel.Proofs.Hypergraph.Construction

/-!
# Adjacency by members

In a well-formed graph a node leads to the edges that span it, whatever their numbers. Neighbours,
connections and hop layers therefore depend on nothing but the number of nodes and the sets of
members that occur, and not on how often or in which order they do.
-/
namespace Multilevel.Hypergraph

variable {α : Type} {g k : Hypergraph α}

/-! ### Spanning edges -/

theorem mapM_edge_edgesAt (g : Hypergraph α) (n : NodeId) :
    (edgesAt g.edges n).mapM g.edge = .ok (g.edges.filter (n ∈ ·.members)) := by
  have found := mapM_zipIdx (f := g.edge) (g := id) (fun e => decide (n ∈ e.members))
    fun e edge read => edge_ok.mpr read
  rwa [List.map_id] at found

theorem WellFormed.incident_eq (wellFormed : g.WellFormed) {n : NodeId} (known : n < g.nodeCount) :
    g.incident n = .ok (edgesAt g.edges n) := by
  have read : g.nodes[n]? = some g.nodes[n] := List.getElem?_eq_getElem known
  obtain ⟨increasing, spans⟩ := wellFormed.incidence n _ read
  rw [incident, node_ok.mpr read]
  refine congrArg Except.ok (Ordered.eq_of_mem_iff increasing (increasing_edgesAt _ _) fun e => ?_)
  rw [spans, mem_edgesAt]

theorem node_unknown {n : NodeId} (unknown : g.nodeCount ≤ n) :
    g.node n = .error (.unknownNode n) := by
  have none : g.nodes[n]? = none := List.getElem?_eq_none unknown
  rw [node, none]

/-- What is computed from the edges that span a node: the edges may come from the table of edges
in place of the node. -/
theorem WellFormed.spanning_eq (wellFormed : g.WellFormed) {β : Type}
    (f : List (Edge α) → Except Fault β) (n : NodeId) :
    (do f (← (← g.incident n).mapM g.edge)) = if n < g.nodeCount
      then f (g.edges.filter (n ∈ ·.members)) else .error (.unknownNode n) := by
  split
  · rename_i known
    rw [wellFormed.incident_eq known]
    change ((edgesAt g.edges n).mapM g.edge >>= f) = _
    rw [mapM_edge_edgesAt]
    rfl
  · rename_i unknown
    rw [incident, node_unknown (Nat.le_of_not_lt unknown)]
    rfl

theorem WellFormed.connected_eq (wellFormed : g.WellFormed) (a b : NodeId) :
    g.connected a b = if b < g.nodeCount then
      if a < g.nodeCount then .ok ((g.edges.filter (a ∈ ·.members)).any (b ∈ ·.members))
      else .error (.unknownNode a)
    else .error (.unknownNode b) := by
  split
  · rename_i known
    rw [connected, node_ok.mpr (List.getElem?_eq_getElem known)]
    exact wellFormed.spanning_eq (fun edges => pure (edges.any (b ∈ ·.members))) a
  · rename_i unknown
    rw [connected, node_unknown (Nat.le_of_not_lt unknown)]
    rfl

/-! ### Graphs with the same sets of members -/

/-- Graphs with as many nodes, and edges that span the same sets of them. -/
structure SameSpans (k g : Hypergraph α) : Prop where
  nodeCount : k.nodeCount = g.nodeCount
  members : ∀ m, m ∈ k.edges.map Edge.members ↔ m ∈ g.edges.map Edge.members

theorem SameSpans.exists_iff (same : k.SameSpans g) (P : List NodeId → Prop) :
    (∃ e ∈ k.edges, P e.members) ↔ ∃ e ∈ g.edges, P e.members := by
  have members (h : Hypergraph α) :
      (∃ e ∈ h.edges, P e.members) ↔ ∃ m ∈ h.edges.map Edge.members, P m := by
    simp only [List.mem_map, exists_exists_and_eq_and]
  rw [members, members]
  exact exists_congr fun m => and_congr_left' (same.members m)

section
variable (same : k.SameSpans g) (left : k.WellFormed) (right : g.WellFormed)
include same left right

theorem SameSpans.neighbors_eq (n : NodeId) : k.neighbors n = g.neighbors n := by
  rw [neighbors, neighbors, left.spanning_eq fun edges => pure
      (Ordered.ofList ((edges.flatMap Edge.members).filter (· ≠ n))),
    right.spanning_eq fun edges => pure
      (Ordered.ofList ((edges.flatMap Edge.members).filter (· ≠ n))), same.nodeCount]
  congr 2
  refine Ordered.ofList_congr fun a => ?_
  simp only [List.mem_filter, List.mem_flatMap, decide_eq_true_eq, and_assoc]
  exact and_congr_left' (same.exists_iff fun m => n ∈ m ∧ a ∈ m)

theorem SameSpans.connected_eq (a b : NodeId) : k.connected a b = g.connected a b := by
  have found : (k.edges.filter (a ∈ ·.members)).any (b ∈ ·.members) =
      (g.edges.filter (a ∈ ·.members)).any (b ∈ ·.members) := by
    rw [Bool.eq_iff_iff]
    simp only [List.any_eq_true, List.mem_filter, decide_eq_true_eq, and_assoc]
    exact same.exists_iff fun m => a ∈ m ∧ b ∈ m
  rw [left.connected_eq, right.connected_eq, same.nodeCount, found]

theorem SameSpans.nextLayer_eq (seen frontier : List NodeId) :
    k.nextLayer seen frontier = g.nextLayer seen frontier := by
  refine foldlM_congr fun found n _ => ?_
  rw [same.neighbors_eq left right]

theorem SameSpans.layersFrom_eq (steps : Nat) (seen frontier : List NodeId) :
    k.layersFrom steps seen frontier = g.layersFrom steps seen frontier := by
  induction steps generalizing seen frontier with
  | zero => rfl
  | succ steps ih => simp only [layersFrom, same.nextLayer_eq left right, ih]

theorem SameSpans.hopLayers_eq (seeds : List NodeId) (distance : Nat) :
    k.hopLayers seeds distance = g.hopLayers seeds distance := by
  simp only [hopLayers, same.nodeCount, same.layersFrom_eq left right]

end
end Multilevel.Hypergraph
