import Multilevel.Proofs.Level.Boundary

/-!
# Children with virtual nodes

With its boundary kept, a child has the clusters as its first nodes, and behind them one virtual
node for each external node that a touched edge spans, in the order in which a scan of the edges
meets them. Every touched edge has an image then, and the image is lost only where a single
cluster contains the edge.
-/
namespace Multilevel

variable {α : Type}

namespace Clustering

def contains (clusters : Clustering) (e : Edge α) : Bool :=
  clusters.any fun members => e.members.all (· ∈ members)

/-- A scan meets a node at a touched edge that spans it. -/
def Meets (clusters : Clustering) (edges : List (Edge α)) (n : NodeId) (i : EdgeId) : Prop :=
  ∃ e, edges[i]? = some e ∧ clusters.touches e = true ∧ n ∈ e.members

/-- A node is met at an earlier edge than another one, or at the same edge as a smaller member. -/
def MeetsFirst (clusters : Clustering) (edges : List (Edge α)) (n m : NodeId) : Prop :=
  ∃ i, clusters.Meets edges n i ∧ ∀ j, clusters.Meets edges m j → i < j ∨ i = j ∧ n < m

end Clustering

namespace Level

variable {parent : Level α} {clusters : Clustering} {options : CoarsenOptions}

/-! ### Nodes -/

theorem getElem?_childOrigins_of_cluster {c : NodeId} {members : List NodeId}
    (read : clusters[c]? = some members) :
    (parent.childOrigins clusters options)[c]? = some (.cluster members) := by
  have inside := (List.getElem?_eq_some_iff.mp read).1
  rw [childOrigins, Clustering.origins, List.getElem?_append_left (by rwa [List.length_map]),
    List.getElem?_map, read]
  rfl

theorem getElem?_childOrigins_of_le {c : NodeId} (outside : clusters.length ≤ c) :
    (parent.childOrigins clusters options)[c]? =
      (parent.outskirts clusters options)[c - clusters.length]?.map .boundary := by
  rw [childOrigins, Clustering.origins, List.getElem?_append_right (by rwa [List.length_map]),
    List.length_map, List.getElem?_map]

theorem getElem?_childOrigins_of_boundary {i n : NodeId}
    (read : (parent.outskirts clusters options)[i]? = some n) :
    (parent.childOrigins clusters options)[clusters.length + i]? = some (.boundary n) := by
  rw [getElem?_childOrigins_of_le (Nat.le_add_right _ _), Nat.add_sub_cancel_left, read]
  rfl

theorem meetsAt_externals {n : NodeId} {i : EdgeId} :
    MeetsAt (parent.graph.edges.map Edge.members) (externals clusters) n i ↔
      n ∉ clusters.flatten ∧ clusters.Meets parent.graph.edges n i := by
  unfold MeetsAt Clustering.Meets
  simp only [List.getElem?_map, Option.map_eq_some_iff]
  constructor
  · rintro ⟨_, ⟨e, read, rfl⟩, listed⟩
    obtain ⟨external, met⟩ := mem_externals.mp listed
    exact ⟨external, e, read, met⟩
  · rintro ⟨external, e, read, met⟩
    exact ⟨e.members, ⟨e, read, rfl⟩, mem_externals.mpr ⟨external, met⟩⟩

theorem mem_outskirts {n : NodeId} :
    n ∈ parent.outskirts clusters ⟨true⟩ ↔
      n ∉ clusters.flatten ∧ ∃ i, clusters.Meets parent.graph.edges n i := by
  rw [outskirts, if_pos rfl, boundary_eq_eraseDups, List.mem_eraseDups, mem_flatMap_iff_meetsAt]
  simp only [meetsAt_externals, exists_and_left]

theorem pairwise_outskirts (wellFormed : parent.graph.WellFormed) :
    (parent.outskirts clusters ⟨true⟩).Pairwise (clusters.MeetsFirst parent.graph.edges) := by
  have ordered : ∀ members ∈ parent.graph.edges.map Edge.members,
      (externals clusters members).Pairwise (· < ·) := by
    refine List.forall_mem_map.mpr fun e present => ?_
    have increasing := (wellFormed.edges e present).increasing
    unfold externals
    split
    · exact increasing.filter _
    · exact List.Pairwise.nil
  rw [outskirts, if_pos rfl, boundary_eq_eraseDups]
  refine (pairwise_eraseDups_flatMap ordered).imp_of_mem fun {n m} _ last => ?_
  obtain ⟨j, met⟩ := mem_flatMap_iff_meetsAt.mp (List.mem_eraseDups.mp last)
  have external := (meetsAt_externals.mp met).1
  rintro ⟨i, first, earlier⟩
  refine ⟨i, (meetsAt_externals.mp first).2, fun k later => ?_⟩
  exact earlier k (meetsAt_externals.mpr ⟨external, later⟩)

/-! ### Hyperedges -/

theorem Places.owner_of_cluster (places : parent.Places clusters) {c n : NodeId}
    {members : List NodeId} (read : clusters[c]? = some members) (listed : n ∈ members) :
    owner (parent.childOrigins clusters options) n = some c :=
  (owner_eq_some places.once_childOrigins).mpr
    ⟨_, getElem?_childOrigins_of_cluster read, listed⟩

/-- A touched edge collapses where one cluster has all its members, and nowhere else. -/
theorem Places.spans_iff (places : parent.Places clusters) {e : Edge α}
    (present : e ∈ parent.graph.edges) (touched : clusters.touches e = true) :
    1 < (e.imageAlong (owner (parent.childOrigins clusters ⟨true⟩))).length ↔
      clusters.contains e = false := by
  rw [← Nat.not_le, Edge.imageAlong, Ordered.length_ofList_le_one, ← Bool.not_eq_true, not_iff_not]
  constructor
  · intro same
    obtain ⟨m, other, clustered⟩ := List.any_eq_true.mp touched
    obtain ⟨members, listed, own⟩ := List.mem_flatten.mp (of_decide_eq_true clustered)
    obtain ⟨c, read⟩ := List.mem_iff_getElem?.mp listed
    have held : c ∈ e.members.filterMap (owner (parent.childOrigins clusters ⟨true⟩)) :=
      List.mem_filterMap.mpr ⟨m, other, places.owner_of_cluster read own⟩
    -- every other member has a node too, which can only be the one of this cluster
    refine List.any_eq_true.mpr ⟨members, listed, List.all_eq_true.mpr fun n member => ?_⟩
    obtain ⟨i, found⟩ := owner_of_touches present touched member
    obtain rfl := same i (List.mem_filterMap.mpr ⟨n, member, found⟩) c held
    obtain ⟨o, origin, parents⟩ := mem_of_owner found
    rw [getElem?_childOrigins_of_cluster read] at origin
    obtain rfl := Option.some.inj origin
    exact decide_eq_true parents
  · intro inside
    obtain ⟨members, listed, all⟩ := List.any_eq_true.mp inside
    obtain ⟨c, read⟩ := List.mem_iff_getElem?.mp listed
    have only : ∀ i ∈ e.members.filterMap (owner (parent.childOrigins clusters ⟨true⟩)), i = c := by
      intro i held
      obtain ⟨n, member, found⟩ := List.mem_filterMap.mp held
      have own := of_decide_eq_true (List.all_eq_true.mp all n member)
      exact Option.some.inj (found.symm.trans (places.owner_of_cluster read own))
    intro i first j second
    exact (only i first).trans (only j second).symm

theorem Places.filterMap_induced (places : parent.Places clusters) :
    parent.graph.edges.filterMap
        (induced clusters (parent.childOrigins clusters ⟨true⟩)) =
      (parent.graph.edges.filter fun e => clusters.touches e && !clusters.contains e).map
        fun e => ⟨e.weights, e.imageAlong (owner (parent.childOrigins clusters ⟨true⟩))⟩ := by
  conv_rhs => rw [← List.filterMap_eq_map, List.filterMap_filter]
  refine List.filterMap_congr fun e present => ?_
  unfold induced
  cases touched : clusters.touches e with
  | false => rfl
  | true =>
    have spans := places.spans_iff present touched
    rw [if_pos rfl, Edge.along]
    cases inside : clusters.contains e with
    | false => rw [if_pos (spans.mpr inside)]; rfl
    | true => rw [if_neg fun spanning => by simp [spans.mp spanning] at inside]; rfl

/-- An edge of a child that has the weights of a parent edge and spans the nodes that stand for its
members, each of which has such a node. -/
structure IsImage (child : Level α) (e d : Edge α) : Prop where
  weights : d.weights = e.weights
  increasing : d.members.Pairwise (· < ·)
  members : ∀ i, i ∈ d.members ↔
    ∃ n ∈ e.members, ∃ parents, child.parentsOf i = .ok parents ∧ n ∈ parents
  whole : ∀ n ∈ e.members, ∃ i ∈ d.members, ∃ parents, child.parentsOf i = .ok parents ∧ n ∈ parents

theorem WellFormed.mem_imageAlong {child : Level α} (wellFormed : child.WellFormed) {e : Edge α}
    {i : NodeId} : i ∈ e.imageAlong (owner child.origins) ↔
      ∃ n ∈ e.members, ∃ parents, child.parentsOf i = .ok parents ∧ n ∈ parents := by
  simp only [Edge.mem_imageAlong, ← contains_iff_owner wellFormed.once]
  rfl

variable [Zero α] [Add α]

theorem Accepts.isImage (accepts : parent.Accepts clusters) (wellFormed : parent.graph.WellFormed)
    {e : Edge α} (present : e ∈ parent.graph.edges) (touched : clusters.touches e = true) :
    (parent.coarsened clusters ⟨true⟩).IsImage e
      ⟨e.weights, e.imageAlong (owner (parent.childOrigins clusters ⟨true⟩))⟩ where
  weights := rfl
  increasing := Ordered.increasing_ofList _
  members i := by
    rw [← origins_coarsened]
    exact (accepts.wellFormed wellFormed).mem_imageAlong
  whole n member := by
    obtain ⟨i, found⟩ := owner_of_touches present touched member
    obtain ⟨o, read, listed⟩ := mem_of_owner found
    rw [← origins_coarsened] at read
    exact ⟨i, Edge.mem_imageAlong.mpr ⟨n, member, found⟩, o.parents,
      parentsOf_ok.mpr ⟨o, read, rfl⟩, listed⟩

/-- With virtual nodes, the edges of a child are the images of the touched edges that no cluster
contains, in the order of the parent. -/
theorem Reachable.coarsen_induces [One α] {child : Level α} (reached : parent.Reachable)
    (made : parent.coarsen clusters { keepBoundary := true } = .ok child) :
    ∃ met : List NodeId,
      child.graph.nodeCount = clusters.length + met.length ∧
      (∀ c members, clusters[c]? = some members →
        child.parentsOf c = .ok members ∧ child.isVirtual c = .ok false) ∧
      (∀ i n, met[i]? = some n → child.parentsOf (clusters.length + i) = .ok [n] ∧
        child.isVirtual (clusters.length + i) = .ok true) ∧
      met.Nodup ∧
      (∀ n, n ∈ met ↔ n ∉ clusters.flatten ∧ ∃ i, clusters.Meets parent.graph.edges n i) ∧
      met.Pairwise (clusters.MeetsFirst parent.graph.edges) ∧
      List.Forall₂ child.IsImage
        (parent.graph.edges.filter fun e => clusters.touches e && !clusters.contains e)
        child.graph.edges := by
  have graph := reached.wellFormed.graph
  have wellFormed := (reached.coarsen made).wellFormed
  obtain ⟨accepts, rfl⟩ := (coarsen_ok graph).mp made
  refine ⟨parent.outskirts clusters ⟨true⟩, ?_, ?_, ?_, nodup_outskirts,
    fun n => mem_outskirts, pairwise_outskirts graph, ?_⟩
  · rw [← wellFormed.origins, origins_coarsened, childOrigins, length_origins]
  · intro c members read
    have origin : (parent.coarsened clusters ⟨true⟩).origins[c]? = some (.cluster members) := by
      rw [origins_coarsened]
      exact getElem?_childOrigins_of_cluster read
    exact ⟨parentsOf_ok.mpr ⟨_, origin, rfl⟩, (isVirtual_ok wellFormed.inStep).mpr ⟨_, origin, rfl⟩⟩
  · intro i n read
    have origin : (parent.coarsened clusters ⟨true⟩).origins[clusters.length + i]? =
        some (.boundary n) := by
      rw [origins_coarsened]
      exact getElem?_childOrigins_of_boundary read
    exact ⟨parentsOf_ok.mpr ⟨_, origin, rfl⟩, (isVirtual_ok wellFormed.inStep).mpr ⟨_, origin, rfl⟩⟩
  · rw [edges_coarsened, accepts.filterMap_induced, List.forall₂_map_right_iff, List.forall₂_same]
    intro e member
    obtain ⟨present, kept⟩ := List.mem_filter.mp member
    rw [Bool.and_eq_true] at kept
    exact accepts.isImage graph present kept.1

/-- An edge inside the cluster of the first two nodes, one that is not touched, and two that are
kept. -/
def fan : Hypergraph Rat :=
  .ofParts ⟨[1], [1]⟩ [[1], [1], [1], [1], [1]]
    [⟨[1], [0, 1]⟩, ⟨[2], [3, 4]⟩, ⟨[3], [0, 4]⟩, ⟨[4], [1, 2, 3]⟩]

/-- The last node is met first, and two of the four edges are left. -/
theorem coarsen_induces_fan : ∃ (child : Level Rat) (met : List NodeId),
    (ofGraph fan).coarsen [[1, 0]] { keepBoundary := true } = .ok child ∧ met = [4, 2, 3] ∧
    met.Pairwise (Clustering.MeetsFirst [[1, 0]] fan.edges) ∧
    List.Forall₂ child.IsImage [⟨[3], [0, 4]⟩, ⟨[4], [1, 2, 3]⟩] child.graph.edges := by
  have built : Hypergraph.assemble ⟨[1], [1]⟩ [[1], [1], [1], [1], [1]]
      [⟨[1], [0, 1]⟩, ⟨[2], [3, 4]⟩, ⟨[3], [0, 4]⟩, ⟨[4], [1, 2, 3]⟩] = .ok fan := rfl
  have top : (ofGraph fan).Reachable := .ofGraph (Hypergraph.reachable_of_assemble built)
  obtain ⟨child, made⟩ := ok_of_isOk
    (x := (ofGraph fan).coarsen [[1, 0]] { keepBoundary := true }) (by decide)
  obtain ⟨met, count, -, virtual, -, -, order, edges⟩ := Reachable.coarsen_induces top made
  refine ⟨child, met, made, ?_, order, edges⟩
  obtain ⟨-, rfl⟩ := (coarsen_ok top.wellFormed.graph).mp made
  have nodes : ((ofGraph fan).coarsened [[1, 0]] ⟨true⟩).graph.nodeCount = 4 := by decide +kernel
  have parents : [1, 2, 3].mapM ((ofGraph fan).coarsened [[1, 0]] ⟨true⟩).parentsOf =
      .ok [[4], [2], [3]] := by decide +kernel
  have three : met.length = 3 := by
    rw [nodes, List.length_singleton] at count
    omega
  obtain ⟨a, b, c, rfl⟩ := List.length_eq_three.mp three
  have own : [1, 2, 3].mapM ((ofGraph fan).coarsened [[1, 0]] ⟨true⟩).parentsOf =
      .ok [[a], [b], [c]] :=
    mapM_ok.mpr (.cons (virtual 0 a rfl).1 (.cons (virtual 1 b rfl).1
      (.cons (virtual 2 c rfl).1 .nil)))
  simpa using own.symm.trans parents

end Level
end Multilevel
