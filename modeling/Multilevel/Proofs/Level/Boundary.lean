import Mathlib.Data.List.Basic
import Multilevel.Proofs.Exact
import Multilevel.Proofs.Level.Cut

/-!
# Cuts with virtual nodes

A clustering touches the edges that have a member in one of its clusters. A child cuts exactly the
touched edges that its expansion cuts in the parent (`cutEdges_coarsened`): virtual nodes stand for
all other members of a touched edge, and an edge that is not touched has no place in the child.
-/
namespace Multilevel.Level

variable {α : Type} {parent : Level α} {clusters : Clustering} {options : CoarsenOptions}

/-- With virtual nodes, a child has a node for each member of a touched edge. -/
theorem owner_of_touches {e : Edge α}
    (present : e ∈ parent.graph.edges) (touched : clusters.touches e = true) {n : NodeId}
    (member : n ∈ e.members) : ∃ i, owner (parent.childOrigins clusters ⟨true⟩) n = some i := by
  apply Option.isSome_iff_exists.mp
  rw [isSome_owner, decide_eq_true_eq, flatMap_parents_childOrigins, List.mem_append]
  by_cases inside : n ∈ clusters.flatten
  · exact .inl inside
  · exact .inr (mem_boundary.mpr ⟨inside, e, present, touched, member⟩)

/-! ### Cut edges -/

section
variable [Zero α] [Add α]

theorem expand_coarsened {p : Partition}
    (length : p.length = (parent.coarsened clusters options).graph.nodeCount) :
    (parent.coarsened clusters options).expand p =
      .ok (expanded (parent.childOrigins clusters options) parent.graph.nodeCount p) := by
  rw [← origins_coarsened]
  exact expand_eq rfl length

theorem cutEdges_coarsened (accepts : parent.Accepts clusters)
    (wellFormed : parent.graph.WellFormed) {p : Partition}
    (length : p.length = (parent.childOrigins clusters options).length) :
    (parent.coarsened clusters options).graph.cutEdges p =
      (parent.graph.edges.filter clusters.touches).filterMap (Edge.along
        (expanded (parent.childOrigins clusters options) parent.graph.nodeCount p).block?) := by
  rw [Hypergraph.cutEdges, edges_coarsened, List.filterMap_filterMap, List.filterMap_filter]
  refine List.filterMap_congr fun e present => ?_
  unfold induced
  by_cases touched : clusters.touches e = true
  · rw [if_pos touched, if_pos touched, Edge.along_bind_along]
    refine Edge.along_congr fun n member => ?_
    exact (block?_expanded accepts.once_childOrigins length
      ((wellFormed.edges e present).known n member)).symm
  · rw [if_neg touched, if_neg touched]
    rfl

/-- A child with virtual nodes counts the cut weight of its expansion, except for that of edges
which no cluster touches. It adds the same vectors in the same order, and every member of a touched
edge has the block of a node of the child. -/
theorem Reachable.cut_boundary [One α] {child : Level α} (reached : parent.Reachable)
    (made : parent.coarsen clusters { keepBoundary := true } = .ok child) {p : Partition}
    (length : p.length = child.graph.nodeCount) :
    ∃ (q : Partition) (counted : List α),
      child.expand p = .ok q ∧ child.graph.cut p = .ok counted ∧
      (child.graph.edges.filter (·.isCut p)).map Edge.weights =
        (parent.graph.edges.filter fun e => e.isCut q && clusters.touches e).map Edge.weights ∧
      Weight.sum parent.graph.edgeDim
        ((parent.graph.edges.filter fun e => e.isCut q && clusters.touches e).map Edge.weights) =
          .ok counted ∧
      (∀ e ∈ parent.graph.edges, clusters.touches e = true → ∀ n ∈ e.members,
        ∃ i parents, child.parentsOf i = .ok parents ∧ n ∈ parents ∧ q.block? n = p.block? i) ∧
      (ExactAddition α → ∃ missed : List α,
        Weight.sum parent.graph.edgeDim
          ((parent.graph.edges.filter fun e => e.isCut q && !clusters.touches e).map Edge.weights) =
            .ok missed ∧
        parent.graph.cut q = .ok (List.zipWith (· + ·) counted missed)) := by
  have graph := reached.wellFormed.graph
  have wellFormed := (reached.coarsen made).wellFormed
  obtain ⟨accepts, rfl⟩ := (coarsen_ok graph).mp made
  have count : p.length = (parent.childOrigins clusters ⟨true⟩).length := by
    rw [length, ← wellFormed.origins, origins_coarsened]
  have size := length_expanded (parent.childOrigins clusters ⟨true⟩) parent.graph.nodeCount p
  let q := expanded (parent.childOrigins clusters ⟨true⟩) parent.graph.nodeCount p
  have dims : ∀ e ∈ parent.graph.edges, e.weights.length = parent.graph.edgeDim :=
    fun e present => (graph.edges e present).weights
  have lengths (keep : Edge α → Bool) :
      ∀ w ∈ (parent.graph.edges.filter keep).map Edge.weights, w.length = parent.graph.edgeDim :=
    List.forall_mem_map.mpr fun e member => dims e (List.mem_filter.mp member).1
  have counted : ((parent.coarsened clusters ⟨true⟩).graph.edges.filter (·.isCut p)).map
      Edge.weights =
        (parent.graph.edges.filter fun e => e.isCut q && clusters.touches e).map Edge.weights := by
    rw [← Hypergraph.weights_cutEdges, cutEdges_coarsened accepts graph count,
      Edge.filterMap_along_block?, List.map_map, List.filter_filter]
    rfl
  refine ⟨q, _, expand_coarsened length, Hypergraph.cut_ok wellFormed.graph length, counted,
    ?_, ?_, ?_⟩
  · rw [Weight.sum_ok (lengths _), ← counted, Hypergraph.weights_cutEdges]
    rfl
  · intro e present touched n member
    obtain ⟨i, found⟩ := owner_of_touches present touched member
    obtain ⟨o, read, own⟩ := mem_of_owner found
    rw [← origins_coarsened] at read
    refine ⟨i, o.parents, parentsOf_ok.mpr ⟨o, read, rfl⟩, own, ?_⟩
    rw [block?_expanded accepts.once_childOrigins count ((graph.edges e present).known n member),
      found, Option.bind_some]
  · intro exact
    refine ⟨_, Weight.sum_ok (lengths _), ?_⟩
    have cut : ∀ e ∈ parent.graph.edges.filter (·.isCut q), e.weights.length = parent.graph.edgeDim :=
      fun e member => dims e (List.mem_filter.mp member).1
    have split := exact.sumOf_filter cut clusters.touches
    simp only [List.filter_filter] at split
    rw [Hypergraph.cut_ok graph size, Hypergraph.weights_cutEdges, Hypergraph.weights_cutEdges,
      counted]
    simp only [Bool.and_comm (Edge.isCut _ _)]
    exact congrArg Except.ok split

/-- A row whose ends are clusters. Its three edges are cut, and the child misses the middle one,
which joins two virtual nodes. -/
theorem cut_boundary_line : ∃ child : Level Rat,
    (ofGraph (.line Rat)).coarsen [[0], [3]] { keepBoundary := true } = .ok child ∧
    ∃ (q : Partition) (counted missed : List Rat),
      child.expand [some 0, some 1, some 1, some 0] = .ok q ∧
      child.graph.cut [some 0, some 1, some 1, some 0] = .ok counted ∧
      (Hypergraph.line Rat).cut q = .ok (List.zipWith (· + ·) counted missed) ∧
      counted = [2] ∧ missed = [1] := by
  have top : (ofGraph (.line Rat)).Reachable := .ofGraph Hypergraph.reachable_line
  obtain ⟨child, made⟩ := ok_of_isOk
    (x := (ofGraph (.line Rat)).coarsen [[0], [3]] { keepBoundary := true }) (by decide)
  obtain ⟨q, counted, carried, cut, -, -, -, rest⟩ := Reachable.cut_boundary top made
    (p := [some 0, some 1, some 1, some 0]) (by
      obtain ⟨-, rfl⟩ := (coarsen_ok top.wellFormed.graph).mp made
      decide)
  obtain ⟨missed, sum, whole⟩ := rest exactAddition_rat
  refine ⟨child, made, q, counted, missed, carried, cut, whole, ?_, ?_⟩
  all_goals obtain ⟨-, rfl⟩ := (coarsen_ok top.wellFormed.graph).mp made
  · have value : ((ofGraph (.line Rat)).coarsened [[0], [3]] ⟨true⟩).graph.cut
        [some 0, some 1, some 1, some 0] = .ok [2] := by decide +kernel
    exact Except.ok.inj (cut.symm.trans value)
  · obtain rfl : [some 0, some 1, some 0, some 1] = q :=
      Except.ok.inj (Eq.trans (by decide +kernel) carried)
    have value : Weight.sum 1 (((Hypergraph.line Rat).edges.filter fun e =>
        e.isCut [some 0, some 1, some 0, some 1] && !Clustering.touches [[0], [3]] e).map
          Edge.weights) = .ok [1] := by decide +kernel
    exact Except.ok.inj (sum.symm.trans value)

end
end Multilevel.Level
