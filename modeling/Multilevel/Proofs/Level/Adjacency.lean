import Multilevel.Proofs.Hypergraph.Layers
import Multilevel.Proofs.Level.Boundary

namespace Multilevel.Level

variable {α : Type} {parent child : Level α} {clusters : Clustering} {options : CoarsenOptions}
  {c d : NodeId}

theorem touches_of_owner {members : List NodeId} {n : NodeId} {e : Edge α}
    (real : (parent.childOrigins clusters options)[c]? = some (.cluster members))
    (own : owner (parent.childOrigins clusters options) n = some c) (spans : n ∈ e.members) :
    clusters.touches e = true := by
  obtain ⟨o, read, listed⟩ := mem_of_owner own
  obtain rfl := Option.some.inj (real.symm.trans read)
  obtain ⟨cluster, present, same⟩ := getElem?_childOrigins_cluster real rfl
  obtain rfl : members = cluster := congrArg Origin.parents same
  have inside : n ∈ clusters.flatten :=
    List.mem_flatten.mpr ⟨members, List.mem_of_getElem? present, listed⟩
  exact List.any_eq_true.mpr ⟨n, spans, decide_eq_true inside⟩

variable [Zero α] [Add α]

theorem linked_iff {members : List NodeId}
    (real : (parent.childOrigins clusters options)[c]? = some (.cluster members)) (apart : c ≠ d) :
    (parent.coarsened clusters options).graph.Linked c d ↔
      ∃ a b, owner (parent.childOrigins clusters options) a = some c ∧
        owner (parent.childOrigins clusters options) b = some d ∧ parent.graph.Linked a b := by
  simp only [Hypergraph.Linked, edges_coarsened, List.mem_filterMap, induced]
  constructor
  · rintro ⟨_, ⟨e, present, kept⟩, first, second⟩
    split at kept
    · obtain ⟨-, rfl⟩ := Edge.along_eq_some.mp kept
      obtain ⟨a, left, own⟩ := Edge.mem_imageAlong.mp first
      obtain ⟨b, right, other⟩ := Edge.mem_imageAlong.mp second
      exact ⟨a, b, own, other, e, present, left, right⟩
    · cases kept
  · rintro ⟨a, b, own, other, e, present, left, right⟩
    refine ⟨⟨e.weights, e.imageAlong (owner (parent.childOrigins clusters options))⟩,
      ⟨e, present, ?_⟩, Edge.mem_imageAlong.mpr ⟨a, left, own⟩,
      Edge.mem_imageAlong.mpr ⟨b, right, other⟩⟩
    -- only a touched edge has an image, and it is touched where the first node is a cluster
    rw [if_pos (touches_of_owner real own left)]
    exact Edge.along_of_apart left right own other apart

variable [One α]

/-- From a node of a cluster, a child is connected as its parent is: it is connected to another
node exactly where one parent node of each is, and its neighbours are the other nodes that stand
for a neighbour of one of its parent nodes. -/
theorem Reachable.connected_coarsen (reached : parent.Reachable)
    (made : parent.coarsen clusters options = .ok child) (real : child.isVirtual c = .ok false) :
    (∀ d < child.graph.nodeCount, d ≠ c → ∃ joined, child.graph.connected c d = .ok joined ∧
      (joined = true ↔ ∃ a b, child.Contains c a ∧ child.Contains d b ∧
        parent.graph.connected a b = .ok true)) ∧
    ∃ near, child.graph.neighbors c = .ok near ∧ near.Pairwise (· < ·) ∧
      ∀ d, d ∈ near ↔ d ≠ c ∧ ∃ a b beside, child.Contains c a ∧
        parent.graph.neighbors a = .ok beside ∧ b ∈ beside ∧ child.Contains d b := by
  have graph := reached.wellFormed.graph
  have wellFormed := (reached.coarsen made).wellFormed
  simp only [contains_iff_owner wellFormed.once, graph.connected_true]
  obtain ⟨o, read, cluster⟩ := (isVirtual_ok wellFormed.inStep).mp real
  have known := wellFormed.lt_nodeCount_iff.mpr ⟨_, read⟩
  obtain ⟨accepts, rfl⟩ := (coarsen_ok graph).mp made
  rw [origins_coarsened] at read
  obtain ⟨members, -, rfl⟩ := getElem?_childOrigins_cluster read cluster
  simp only [origins_coarsened]
  constructor
  · intro d inside apart
    obtain ⟨joined, called, linked⟩ := wellFormed.graph.exists_connected known inside
    exact ⟨joined, called, linked.trans (linked_iff read apart.symm)⟩
  · refine ⟨_, (wellFormed.graph.neighbors_eq c).trans (if_pos known), Ordered.increasing_ofList _,
      fun d => ?_⟩
    rw [Hypergraph.mem_adjacent]
    refine and_congr_right fun apart => (linked_iff read apart.symm).trans ?_
    constructor
    · rintro ⟨a, b, own, other, linked⟩
      have different : b ≠ a := by
        rintro rfl
        exact apart (Option.some.inj (other.symm.trans own))
      obtain ⟨beside, listed, member⟩ := graph.mem_neighbors.mpr ⟨different, linked⟩
      exact ⟨a, b, beside, own, listed, member, other⟩
    · rintro ⟨a, b, beside, own, listed, member, other⟩
      exact ⟨a, b, own, other, (graph.mem_neighbors.mp ⟨beside, listed, member⟩).2⟩

/-- A row whose ends are one cluster. Of the nodes between them one is a cluster of its own and the
other one virtual. -/
theorem connected_coarsen_line : ∃ child : Level Float,
    (ofGraph (.line Float)).coarsen [[1], [3, 0]] ⟨true⟩ = .ok child ∧
    child.isVirtual 1 = .ok false ∧ child.isVirtual 2 = .ok true ∧
    (∃ joined, child.graph.connected 1 2 = .ok joined ∧
      (joined = true ↔ ∃ a b, child.Contains 1 a ∧ child.Contains 2 b ∧
        (Hypergraph.line Float).connected a b = .ok true)) ∧
    ∃ near, child.graph.neighbors 1 = .ok near ∧ near = [0, 2] ∧
      ∀ d, d ∈ near ↔ d ≠ 1 ∧ ∃ a b beside, child.Contains 1 a ∧
        (Hypergraph.line Float).neighbors a = .ok beside ∧ b ∈ beside ∧ child.Contains d b := by
  have made : (ofGraph (.line Float)).coarsen [[1], [3, 0]] ⟨true⟩ = .ok _ := rfl
  obtain ⟨joined, near, listed, -, members⟩ :=
    Reachable.connected_coarsen (.ofGraph Hypergraph.reachable_line) made
      (show Level.isVirtual _ 1 = .ok false from rfl)
  refine ⟨_, made, rfl, rfl, joined 2 (by decide +kernel) (by decide), near, listed, ?_, members⟩
  exact Except.ok.inj (listed.symm.trans rfl)

end Multilevel.Level
