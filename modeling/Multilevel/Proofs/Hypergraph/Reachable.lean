import Multilevel.Proofs.Hypergraph.Edit

namespace Multilevel.Hypergraph

variable {α : Type} [One α]

theorem length_reshape (dim : Nat) (weights : List α) :
    (Weight.reshape dim weights).length = dim := by
  simp only [Weight.reshape, List.length_append, List.length_take, List.length_replicate]
  omega

theorem WellFormed.apply {g h : Hypergraph α} {edit : Edit α} (wellFormed : g.WellFormed)
    (accepted : edit.apply g = .ok h) : h.WellFormed := by
  have fits := wellFormed.fits
  rw [wellFormed.eq_ofParts] at accepted
  generalize g.factors = factors, g.nodes.map Node.weights = weights, g.edges = edges at *
  cases edit with
  | addNode w =>
    obtain ⟨length, rfl⟩ := (addNode_ofParts fun e member => (fits.edges e member).known).mp accepted
    have grown : weights.length ≤ (weights ++ [w]).length := by simp
    refine Fits.wellFormed ⟨fits.nodeFactor, fits.edgeFactor, ?_,
      fun e member => (fits.edges e member).mono grown⟩
    exact List.forall_mem_append.mpr ⟨fits.nodeWeights, by simpa using length⟩
  | addEdge members w =>
    obtain ⟨edge, rfl⟩ := (addEdge_ofParts (e := ⟨w, members⟩)).mp accepted
    refine Fits.wellFormed { fits with edges := ?_ }
    exact List.forall_mem_append.mpr ⟨fits.edges, by simpa using edge⟩
  | setNodeWeights n w =>
    obtain ⟨length, -, rfl⟩ := setNodeWeights_ofParts.mp accepted
    refine Fits.wellFormed ⟨fits.nodeFactor, fits.edgeFactor, ?_, ?_⟩
    · intro v member
      rcases List.mem_or_eq_of_mem_set member with old | rfl
      · exact fits.nodeWeights v old
      · exact length
    · rw [List.length_set]
      exact fits.edges
  | setEdgeWeights e w =>
    obtain ⟨length, edge, read, rfl⟩ := setEdgeWeights_ofParts.mp accepted
    refine Fits.wellFormed { fits with edges := ?_ }
    intro f member
    rcases List.mem_or_eq_of_mem_set member with old | rfl
    · exact fits.edges f old
    · exact { fits.edges edge (List.mem_of_getElem? read) with weights := length }
  | setNodeFactor factor =>
    obtain ⟨nonempty, rfl⟩ := setNodeFactor_ofParts.mp accepted
    refine Fits.wellFormed ⟨nonempty, fits.edgeFactor, ?_, ?_⟩
    · exact List.forall_mem_map.mpr fun w _ => length_reshape _ w
    · rw [List.length_map]
      exact fits.edges
  | setEdgeFactor factor =>
    obtain ⟨nonempty, rfl⟩ := setEdgeFactor_ofParts.mp accepted
    refine Fits.wellFormed ⟨fits.nodeFactor, nonempty, fits.nodeWeights, ?_⟩
    exact List.forall_mem_map.mpr fun e member =>
      { fits.edges e member with weights := length_reshape _ e.weights }

/-- The graphs that a program can hold. -/
inductive Reachable : Hypergraph α → Prop
  | empty {factors : Factors α} {g : Hypergraph α} (made : Hypergraph.empty factors = .ok g) :
    Reachable g
  | unit : Reachable unit
  | after {g : Hypergraph α} (edit : Edit α) (reached : Reachable g) : Reachable (g.after edit)

theorem Reachable.apply {g h : Hypergraph α} (edit : Edit α) (reached : g.Reachable)
    (accepted : edit.apply g = .ok h) : h.Reachable := by
  rw [← after_of_ok accepted]
  exact reached.after edit

theorem Reachable.wellFormed {g : Hypergraph α} (reached : g.Reachable) : g.WellFormed := by
  induction reached with
  | empty made =>
    obtain ⟨node, edge, rfl⟩ := empty_ok.mp made
    exact Fits.wellFormed ⟨node, edge, by simp, by simp⟩
  | unit =>
    have fits : Fits (.uniform 1 1 : Factors α) [] [] :=
      ⟨by simp [Factors.uniform], by simp [Factors.uniform], by simp, by simp⟩
    exact fits.wellFormed
  | @after g edit _ ih =>
    cases h : edit.apply g with
    | ok next =>
      rw [after_of_ok h]
      exact ih.apply h
    | error fault =>
      rw [after_of_error h]
      exact ih

theorem Reachable.foldlM_addNode {g h : Hypergraph α} {added : List (List α)}
    (reached : g.Reachable) (made : added.foldlM addNode g = .ok h) : h.Reachable :=
  foldlM_keeps Reachable (fun _ w _ _ before step => before.apply (.addNode w) step)
    reached made

theorem Reachable.foldlM_addEdge {g h : Hypergraph α} {added : List (Edge α)}
    (reached : g.Reachable)
    (made : added.foldlM (fun g e => g.addEdge e.members e.weights) g = .ok h) : h.Reachable :=
  foldlM_keeps Reachable
    (fun _ e _ _ before step => before.apply (.addEdge e.members e.weights) step)
    reached made

theorem reachable_of_assemble {factors : Factors α} {weights : List (List α)}
    {edges : List (Edge α)} {g : Hypergraph α} (made : assemble factors weights edges = .ok g) :
    g.Reachable := by
  unfold assemble at made
  obtain ⟨bare, start, made⟩ := bind_ok.mp made
  obtain ⟨noded, nodes, made⟩ := bind_ok.mp made
  exact ((Reachable.empty start).foldlM_addNode nodes).foldlM_addEdge made

omit [One α] in
theorem WellFormed.assemble_parts {g : Hypergraph α} (wellFormed : g.WellFormed) :
    assemble g.factors (g.nodes.map Node.weights) g.edges = .ok g := by
  have canonical : g.edges.map Edge.canonical = g.edges :=
    (List.map_congr_left fun e member => (wellFormed.edges e member).canonical).trans (List.map_id' _)
  rw [assemble_ok, canonical]
  exact ⟨wellFormed.fits, wellFormed.eq_ofParts⟩

theorem WellFormed.reachable {g : Hypergraph α} (wellFormed : g.WellFormed) : g.Reachable :=
  reachable_of_assemble wellFormed.assemble_parts

def line (α : Type) [One α] : Hypergraph α :=
  ofParts ⟨[1], [1]⟩ [[1], [1], [1], [1]] [⟨[1], [0, 1]⟩, ⟨[1], [1, 2]⟩, ⟨[1], [2, 3]⟩]

theorem reachable_line : (line α).Reachable := by
  have made : assemble ⟨[1], [1]⟩ [[1], [1], [1], [1]]
      [⟨[1], [0, 1]⟩, ⟨[1], [1, 2]⟩, ⟨[1], [2, 3]⟩] = .ok (line α) := rfl
  exact reachable_of_assemble made

end Multilevel.Hypergraph
