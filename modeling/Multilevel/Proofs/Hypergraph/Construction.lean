import Multilevel.Proofs.Hypergraph.WellFormed

/-!
# Construction

What the operations that build and change a graph accept, and what they make of the parts of a
well-formed graph. `assemble_ok` puts the steps together: a graph can be assembled from parts
exactly when they fit, and then it is the graph of these parts.
-/
namespace Multilevel.Hypergraph

variable {α : Type}

/-! ### Access -/

theorem node_ok {g : Hypergraph α} {n : NodeId} {node : Node α} :
    g.node n = .ok node ↔ g.nodes[n]? = some node := by
  unfold Hypergraph.node
  cases g.nodes[n]? <;> simp

theorem edge_ok {g : Hypergraph α} {e : EdgeId} {edge : Edge α} :
    g.edge e = .ok edge ↔ g.edges[e]? = some edge := by
  unfold Hypergraph.edge
  cases g.edges[e]? <;> simp

theorem checkNodeWeights_ok {g : Hypergraph α} {weights : List α} {u : Unit} :
    g.checkNodeWeights weights = .ok u ↔ weights.length = g.nodeDim := by
  unfold checkNodeWeights
  split <;> simp_all

theorem checkEdgeWeights_ok {g : Hypergraph α} {weights : List α} {u : Unit} :
    g.checkEdgeWeights weights = .ok u ↔ weights.length = g.edgeDim := by
  unfold checkEdgeWeights
  split <;> simp_all

/-! ### Node weights -/

def weightsAt (g : Hypergraph α) (n : NodeId) : List α := (g.nodes[n]?.map Node.weights).getD []

theorem nodeWeights_eq {g : Hypergraph α} {n : NodeId} (known : n < g.nodeCount) :
    g.nodeWeights n = .ok (g.weightsAt n) := by
  have read : g.nodes[n]? = some g.nodes[n] := List.getElem?_eq_getElem known
  rw [nodeWeights, node_ok.mpr read, weightsAt, read]
  rfl

theorem weightsAt_ofParts {factors : Factors α} {weights : List (List α)} {edges : List (Edge α)}
    {n : NodeId} {w : List α} (read : weights[n]? = some w) :
    (ofParts factors weights edges).weightsAt n = w := by
  rw [weightsAt, ← List.getElem?_map, weights_ofParts, read]
  rfl

theorem length_weightsAt {g : Hypergraph α} (wellFormed : g.WellFormed) {n : NodeId}
    (known : n < g.nodeCount) : (g.weightsAt n).length = g.nodeDim := by
  have read : g.nodes[n]? = some g.nodes[n] := List.getElem?_eq_getElem known
  rw [weightsAt, read]
  exact wellFormed.nodeWeights _ (List.getElem_mem known)

theorem weights_eq_weightsAt (g : Hypergraph α) :
    g.nodes.map Node.weights = (List.range g.nodeCount).map g.weightsAt := by
  refine List.ext_getElem (by simp [nodeCount]) fun n known _ => ?_
  rw [List.length_map] at known
  simp [weightsAt, known]

/-! ### What each operation accepts -/

theorem check_ok {factors : Factors α} {u : Unit} :
    factors.check = .ok u ↔ factors.node ≠ [] ∧ factors.edge ≠ [] := by
  unfold Factors.check
  cases factors.node <;> cases factors.edge <;> simp

theorem empty_ok {factors : Factors α} {g : Hypergraph α} :
    empty factors = .ok g ↔ factors.node ≠ [] ∧ factors.edge ≠ [] ∧ g = ofParts factors [] [] := by
  unfold empty
  simp only [map_ok, check_ok]
  exact ⟨fun ⟨_, ⟨node, edge⟩, same⟩ => ⟨node, edge, same.symm⟩,
    fun ⟨node, edge, same⟩ => ⟨(), ⟨node, edge⟩, same.symm⟩⟩

theorem addNode_ok {g h : Hypergraph α} {weights : List α} :
    g.addNode weights = .ok h ↔
      weights.length = g.nodeDim ∧ h = { g with nodes := g.nodes ++ [⟨weights, []⟩] } := by
  unfold addNode
  simp only [bind_ok, pure_ok, checkNodeWeights_ok]
  exact ⟨fun ⟨_, fits, same⟩ => ⟨fits, same.symm⟩, fun ⟨fits, same⟩ => ⟨(), fits, same.symm⟩⟩

theorem addEdge_ok {g h : Hypergraph α} {e : Edge α} :
    g.addEdge e.members e.weights = .ok h ↔
      e.canonical.WellFormed g.edgeDim g.nodeCount ∧ h = g.append e.canonical := by
  unfold addEdge
  simp only [bind_ok, checkEdgeWeights_ok]
  constructor
  · rintro ⟨_, fits, h⟩
    split at h
    · cases h
    · rename_i large
      split at h
      · cases h
      · rename_i none
        have known := List.find?_eq_none.mp none
        exact ⟨⟨fits, Ordered.increasing_ofList _, Nat.le_of_not_lt large,
          fun n member => by simpa using known n member⟩, (Except.ok.inj h).symm⟩
  · rintro ⟨wellFormed, rfl⟩
    have none : (Ordered.ofList e.members).find? (g.nodeCount ≤ ·) = none :=
      List.find?_eq_none.mpr fun n member => by simpa using wellFormed.known n member
    have large : ¬ (Ordered.ofList e.members).length < 2 := Nat.not_lt.mpr wellFormed.spanning
    refine ⟨(), wellFormed.weights, ?_⟩
    rw [if_neg large, none]
    rfl

theorem setNodeWeights_ok {g h : Hypergraph α} {n : NodeId} {weights : List α} :
    g.setNodeWeights n weights = .ok h ↔ weights.length = g.nodeDim ∧
      ∃ node, g.nodes[n]? = some node ∧ h = { g with nodes := g.nodes.set n { node with weights } } := by
  unfold setNodeWeights
  simp only [bind_ok, pure_ok, checkNodeWeights_ok, node_ok]
  exact ⟨fun ⟨_, fits, node, read, same⟩ => ⟨fits, node, read, same.symm⟩,
    fun ⟨fits, node, read, same⟩ => ⟨(), fits, node, read, same.symm⟩⟩

theorem setEdgeWeights_ok {g h : Hypergraph α} {e : EdgeId} {weights : List α} :
    g.setEdgeWeights e weights = .ok h ↔ weights.length = g.edgeDim ∧
      ∃ edge, g.edges[e]? = some edge ∧ h = { g with edges := g.edges.set e { edge with weights } } := by
  unfold setEdgeWeights
  simp only [bind_ok, pure_ok, checkEdgeWeights_ok, edge_ok]
  exact ⟨fun ⟨_, fits, edge, read, same⟩ => ⟨fits, edge, read, same.symm⟩,
    fun ⟨fits, edge, read, same⟩ => ⟨(), fits, edge, read, same.symm⟩⟩

/-! ### What each operation makes of the parts -/

section
variable {factors : Factors α} {weights : List (List α)} {edges : List (Edge α)}

theorem append_ofParts (edge : Edge α) :
    (ofParts factors weights edges).append edge = ofParts factors weights (edges ++ [edge]) := by
  have nodes : ((ofParts factors weights edges).append edge).nodes =
      (ofParts factors weights (edges ++ [edge])).nodes := by
    apply List.ext_getElem?
    intro n
    rw [append, List.getElem?_mapIdx, getElem?_nodes_ofParts, getElem?_nodes_ofParts]
    cases weights[n]? with
    | none => rfl
    | some w =>
      rw [Option.map_some, Option.map_some, Option.map_some, edgesAt_append, Node.touch]
      split <;> simp [ofParts, edgeCount]
  exact congrArg (Hypergraph.mk factors · (edges ++ [edge])) nodes

theorem addNode_ofParts {w : List α} {h : Hypergraph α}
    (known : ∀ e ∈ edges, ∀ n ∈ e.members, n < weights.length) :
    (ofParts factors weights edges).addNode w = .ok h ↔
      w.length = factors.node.length ∧ h = ofParts factors (weights ++ [w]) edges := by
  have fresh : edgesAt edges weights.length = [] :=
    edgesAt_eq_nil fun e member spans => Nat.lt_irrefl _ (known e member _ spans)
  have nodes : (ofParts factors weights edges).nodes ++ [⟨w, []⟩] =
      (ofParts factors (weights ++ [w]) edges).nodes := by
    rw [ofParts, ofParts, List.mapIdx_concat, fresh]
  rw [addNode_ok, nodes]
  rfl

theorem addEdge_ofParts {e : Edge α} {h : Hypergraph α} :
    (ofParts factors weights edges).addEdge e.members e.weights = .ok h ↔
      e.canonical.WellFormed factors.edge.length weights.length ∧
        h = ofParts factors weights (edges ++ [e.canonical]) := by
  rw [addEdge_ok, append_ofParts, nodeCount_ofParts]
  rfl

theorem setNodeWeights_ofParts {n : NodeId} {w : List α} {h : Hypergraph α} :
    (ofParts factors weights edges).setNodeWeights n w = .ok h ↔ w.length = factors.node.length ∧
      n < weights.length ∧ h = ofParts factors (weights.set n w) edges := by
  have nodes : (ofParts factors weights edges).nodes.set n ⟨w, edgesAt edges n⟩ =
      (ofParts factors (weights.set n w) edges).nodes := by
    rw [ofParts, ofParts, List.mapIdx_set]
  rw [setNodeWeights_ok]
  refine and_congr Iff.rfl ⟨?_, ?_⟩
  · rintro ⟨node, read, rfl⟩
    rw [getElem?_nodes_ofParts] at read
    obtain ⟨old, present, rfl⟩ := Option.map_eq_some_iff.mp read
    exact ⟨(List.getElem?_eq_some_iff.mp present).1,
      congrArg (Hypergraph.mk factors · edges) nodes⟩
  · rintro ⟨bound, rfl⟩
    refine ⟨⟨weights[n], edgesAt edges n⟩, ?_, congrArg (Hypergraph.mk factors · edges) nodes.symm⟩
    rw [getElem?_nodes_ofParts, List.getElem?_eq_getElem bound]
    rfl

theorem edgesAt_congr {others : List (Edge α)} (n : NodeId)
    (same : edges.map Edge.members = others.map Edge.members) : edgesAt edges n = edgesAt others n := by
  apply Ordered.eq_of_mem_iff (increasing_edgesAt _ _) (increasing_edgesAt _ _)
  intro e
  have read : edges[e]?.map Edge.members = others[e]?.map Edge.members := by
    rw [← List.getElem?_map, ← List.getElem?_map, same]
  rw [mem_edgesAt, mem_edgesAt]
  cases left : edges[e]? <;> cases right : others[e]? <;> simp_all

theorem setEdgeWeights_ofParts {e : EdgeId} {w : List α} {h : Hypergraph α} :
    (ofParts factors weights edges).setEdgeWeights e w = .ok h ↔ w.length = factors.edge.length ∧
      ∃ edge, edges[e]? = some edge ∧
        h = ofParts factors weights (edges.set e { edge with weights := w }) := by
  rw [setEdgeWeights_ok]
  refine and_congr Iff.rfl (exists_congr fun edge => and_congr_right fun read => ?_)
  obtain ⟨bound, rfl⟩ : ∃ bound : e < edges.length, edges[e] = edge :=
    List.getElem?_eq_some_iff.mp read
  have members : edges.map Edge.members =
      (edges.set e ⟨w, edges[e].members⟩).map Edge.members := by
    rw [List.map_set, ← List.getElem_map Edge.members (h := by simpa using bound)]
    exact (List.set_getElem_self _).symm
  simp only [ofParts, edgesAt_congr _ members]

theorem setNodeFactor_ofParts [One α] {factor : List α} {h : Hypergraph α} :
    (ofParts factors weights edges).setNodeFactor factor = .ok h ↔ factor ≠ [] ∧
      h = ofParts { factors with node := factor } (weights.map (Weight.reshape factor.length))
        edges := by
  have nodes : (ofParts factors weights edges).nodes.map
      (fun n => { n with weights := Weight.reshape factor.length n.weights }) =
        (ofParts { factors with node := factor } (weights.map (Weight.reshape factor.length))
          edges).nodes := by
    apply List.ext_getElem?
    intro n
    rw [List.getElem?_map, getElem?_nodes_ofParts, getElem?_nodes_ofParts, List.getElem?_map]
    cases weights[n]? <;> rfl
  unfold setNodeFactor
  rw [nodes]
  cases factor with
  | nil => simp
  | cons => simp [ofParts, eq_comm]

theorem setEdgeFactor_ofParts [One α] {factor : List α} {h : Hypergraph α} :
    (ofParts factors weights edges).setEdgeFactor factor = .ok h ↔ factor ≠ [] ∧
      h = ofParts { factors with edge := factor } weights
        (edges.map fun e => { e with weights := Weight.reshape factor.length e.weights }) := by
  have members : edges.map Edge.members = (edges.map fun e =>
      { e with weights := Weight.reshape factor.length e.weights }).map Edge.members := by
    rw [List.map_map]
    rfl
  unfold setEdgeFactor
  cases factor with
  | nil => simp
  | cons => simp [ofParts, edgesAt_congr _ members, eq_comm]

/-! ### Assembly -/

theorem foldlM_addNode_ok {added : List (List α)} {h : Hypergraph α} :
    added.foldlM addNode (ofParts factors weights []) = .ok h ↔
      (∀ w ∈ added, w.length = factors.node.length) ∧ h = ofParts factors (weights ++ added) [] := by
  induction added generalizing weights with
  | nil =>
    rw [List.foldlM_nil, pure_ok, List.append_nil, eq_comm]
    simp
  | cons w added ih =>
    rw [List.foldlM_cons, bind_ok, List.forall_mem_cons, List.append_cons]
    constructor
    · rintro ⟨next, first, rest⟩
      obtain ⟨fits, rfl⟩ := (addNode_ofParts (by simp)).mp first
      obtain ⟨others, same⟩ := ih.mp rest
      exact ⟨⟨fits, others⟩, same⟩
    · rintro ⟨⟨fits, others⟩, same⟩
      exact ⟨_, (addNode_ofParts (by simp)).mpr ⟨fits, rfl⟩, ih.mpr ⟨others, same⟩⟩

theorem foldlM_addEdge_ok {added : List (Edge α)} {h : Hypergraph α} :
    added.foldlM (fun g e => g.addEdge e.members e.weights) (ofParts factors weights edges) = .ok h ↔
      (∀ e ∈ added, e.canonical.WellFormed factors.edge.length weights.length) ∧
        h = ofParts factors weights (edges ++ added.map Edge.canonical) := by
  induction added generalizing edges with
  | nil =>
    rw [List.foldlM_nil, pure_ok, List.map_nil, List.append_nil, eq_comm]
    simp
  | cons e added ih =>
    rw [List.foldlM_cons, bind_ok, List.forall_mem_cons, List.map_cons, List.append_cons]
    constructor
    · rintro ⟨next, first, rest⟩
      obtain ⟨fits, rfl⟩ := addEdge_ofParts.mp first
      obtain ⟨others, same⟩ := ih.mp rest
      exact ⟨⟨fits, others⟩, same⟩
    · rintro ⟨⟨fits, others⟩, same⟩
      exact ⟨_, addEdge_ofParts.mpr ⟨fits, rfl⟩, ih.mpr ⟨others, same⟩⟩

/-- Parts can be assembled exactly when they fit with the members of each edge as a set. -/
theorem assemble_ok {h : Hypergraph α} :
    assemble factors weights edges = .ok h ↔
      Fits factors weights (edges.map Edge.canonical) ∧
        h = ofParts factors weights (edges.map Edge.canonical) := by
  unfold assemble
  simp only [bind_ok, empty_ok]
  constructor
  · rintro ⟨_, ⟨node, edge, rfl⟩, _, nodes, added⟩
    obtain ⟨lengths, rfl⟩ := foldlM_addNode_ok.mp nodes
    obtain ⟨spanning, rfl⟩ := foldlM_addEdge_ok.mp added
    exact ⟨⟨node, edge, lengths, List.forall_mem_map.mpr spanning⟩, rfl⟩
  · rintro ⟨fits, rfl⟩
    exact ⟨_, ⟨fits.nodeFactor, fits.edgeFactor, rfl⟩, _,
      foldlM_addNode_ok.mpr ⟨fits.nodeWeights, rfl⟩,
      foldlM_addEdge_ok.mpr ⟨List.forall_mem_map.mp fits.edges, rfl⟩⟩

end
end Multilevel.Hypergraph
