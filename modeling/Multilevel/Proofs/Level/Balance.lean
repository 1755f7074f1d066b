import Multilevel.Proofs.Hypergraph.Balance
import Multilevel.Proofs.Level.Boundary
import Multilevel.Proofs.Level.Composition

/-!
# Balance through a level

A clustering that covers the parent leaves no node without a block when a partition is expanded.
The nodes of a block are then the members of the clusters in this block, so block weights are the
same on both levels where addition is exact. An empty cluster may hold the last block alone, which
the parent then does not have.
-/
namespace Multilevel

def Clustering.Covers (clusters : Clustering) (count : Nat) : Prop :=
  ∀ n < count, n ∈ clusters.flatten

namespace Level

variable {α : Type} {parent : Level α} {clusters : Clustering} {options : CoarsenOptions}
  {p : Partition}

/-! ### Coverings -/

theorem outskirts_of_covers (wellFormed : parent.graph.WellFormed)
    (covers : clusters.Covers parent.graph.nodeCount) :
    parent.outskirts clusters options = [] :=
  List.eq_nil_iff_forall_not_mem.mpr fun n member =>
    outskirts_external member (covers n (known_outskirts wellFormed member))

/-- A covering has no boundary, so there are no virtual nodes to be kept. -/
theorem coarsened_of_covers [Zero α] [Add α] (wellFormed : parent.graph.WellFormed)
    (covers : clusters.Covers parent.graph.nodeCount) :
    parent.coarsened clusters options = parent.coarsened clusters {} := by
  have none (options : CoarsenOptions) : parent.outskirts clusters options = [] :=
    outskirts_of_covers wellFormed covers
  simp only [coarsened, childGraph, childWeights, childOrigins, none]

/-! ### Blocks of an expansion -/

theorem lt_of_getElem?_expanded {origins : List Origin} {count n : Nat} {block : Option BlockId}
    (read : (expanded origins count p)[n]? = some block) : n < count := by
  have bound := (List.getElem?_eq_some_iff.mp read).1
  rwa [length_expanded] at bound

section
variable (places : parent.Places clusters) (length : p.length = clusters.length)
include places length

theorem Places.block?_expanded_eq_some {n : NodeId} (known : n < parent.graph.nodeCount)
    {b : BlockId} :
    (expanded (clusters.map .cluster) parent.graph.nodeCount p).block? n = some b ↔
      ∃ c, p.block? c = some b ∧ n ∈ clusters.members c := by
  have once : ((clusters.map Origin.cluster).flatMap Origin.parents).Nodup := by
    rw [flatMap_parents_cluster]
    exact places.once
  rw [block?_expanded once (by rw [length, List.length_map]) known, Option.bind_eq_some_iff]
  simp only [← Clustering.mem_members_iff_owner places.once, and_comm]

theorem Places.none_notMem_expanded (covers : clusters.Covers parent.graph.nodeCount)
    (assigned : none ∉ p) :
    none ∉ expanded (clusters.map .cluster) parent.graph.nodeCount p := by
  intro member
  obtain ⟨n, read⟩ := List.mem_iff_getElem?.mp member
  have known := lt_of_getElem?_expanded read
  obtain ⟨members, present, listed⟩ := List.mem_flatten.mp (covers n known)
  obtain ⟨c, found⟩ := List.mem_iff_getElem?.mp present
  have inside : c < p.length := length ▸ (List.getElem?_eq_some_iff.mp found).1
  obtain ⟨b, held⟩ := Partition.exists_block assigned inside
  have carried := (places.block?_expanded_eq_some length known).mpr
    ⟨c, held, Clustering.mem_members.mpr ⟨members, found, listed⟩⟩
  rw [Partition.block?, read] at carried
  cases carried

theorem Places.blockCount_expanded_le :
    (expanded (clusters.map .cluster) parent.graph.nodeCount p).blockCount ≤ p.blockCount := by
  refine Partition.blockCount_le_iff.mpr fun b member => ?_
  obtain ⟨n, read⟩ := List.mem_iff_getElem?.mp member
  have known := lt_of_getElem?_expanded read
  obtain ⟨c, held, -⟩ := (places.block?_expanded_eq_some length known).mp
    (Partition.block?_eq_some.mpr read)
  exact Partition.lt_blockCount held

theorem Places.blockCount_expanded (nonempty : [] ∉ clusters) :
    (expanded (clusters.map .cluster) parent.graph.nodeCount p).blockCount = p.blockCount := by
  refine Nat.le_antisymm (places.blockCount_expanded_le length) ?_
  refine Partition.blockCount_le_iff.mpr fun b member => ?_
  obtain ⟨c, read⟩ := List.mem_iff_getElem?.mp member
  have inside : c < clusters.length := length ▸ (List.getElem?_eq_some_iff.mp read).1
  have found : clusters[c]? = some clusters[c] := List.getElem?_eq_getElem inside
  have some : clusters[c] ≠ [] := fun empty => nonempty (empty ▸ List.getElem_mem inside)
  obtain ⟨n, listed⟩ := List.exists_mem_of_ne_nil _ some
  have known := places.known_of_mem (List.getElem_mem inside) n listed
  exact Partition.lt_blockCount ((places.block?_expanded_eq_some length known).mpr
    ⟨c, Partition.block?_eq_some.mpr read, Clustering.mem_members.mpr ⟨_, found, listed⟩⟩)

end

/-! ### Weights -/

variable [Zero α] [Add α]

theorem Places.perm_nodesIn (places : parent.Places clusters) (length : p.length = clusters.length)
    (b : BlockId) :
    (parent.graph.nodesIn (expanded (clusters.map .cluster) parent.graph.nodeCount p) b).Perm
      (((parent.coarsened clusters {}).graph.nodesIn p b).flatMap clusters.members) := by
  have once : (((parent.coarsened clusters {}).graph.nodesIn p b).flatMap clusters.members).Nodup := by
    have blocks : ((parent.coarsened clusters {}).graph.nodesIn p b).Nodup :=
      List.nodup_range.filter _
    have alone : [(parent.coarsened clusters {}).graph.nodesIn p b].flatten.Nodup := by
      rwa [List.flatten_singleton]
    have nodup := Clustering.nodup_compose places.once alone
    rwa [Clustering.flatten_compose, List.flatten_singleton] at nodup
  refine (List.perm_ext_iff_of_nodup (List.nodup_range.filter _) once).mpr fun n => ?_
  simp only [Hypergraph.nodesIn, List.mem_flatMap, List.mem_filter, List.mem_range,
    decide_eq_true_eq, nodeCount_coarsened]
  constructor
  · rintro ⟨known, held⟩
    obtain ⟨c, block, listed⟩ := (places.block?_expanded_eq_some length known).mp held
    have inside := (List.getElem?_eq_some_iff.mp (Partition.block?_eq_some.mp block)).1
    exact ⟨c, ⟨length ▸ inside, block⟩, listed⟩
  · rintro ⟨c, ⟨-, block⟩, listed⟩
    have known := places.known n (Clustering.mem_flatten_of_mem_members listed)
    exact ⟨known, (places.block?_expanded_eq_some length known).mpr ⟨c, block, listed⟩⟩

theorem Places.weightIn_expanded (places : parent.Places clusters)
    (wellFormed : parent.graph.WellFormed) (exact : ExactAddition α)
    (length : p.length = clusters.length) (b : BlockId) :
    parent.graph.weightIn (expanded (clusters.map .cluster) parent.graph.nodeCount p) b =
      (parent.coarsened clusters {}).graph.weightIn p b := by
  have known : ∀ c ∈ (parent.coarsened clusters {}).graph.nodesIn p b, c < clusters.length := by
    intro c member
    rw [← nodeCount_coarsened (g := parent)]
    exact List.mem_range.mp (List.mem_filter.mp member).1
  have members := (places.perm_nodesIn length b).map parent.graph.weightsAt
  exact (exact.sumOf_perm members).trans (together_compose exact wellFormed places known)

section
variable [Neg α] [Sub α] [Div α] [NatCast α] [LE α] [DecidableLE α] [Gauge α]

/-- Where a clustering covers the parent, a partition of the child that assigns every node and its
expansion fill the blocks alike. -/
theorem Reachable.blockWeights_expand [One α] {child : Level α} (reached : parent.Reachable)
    (made : parent.coarsen clusters options = .ok child)
    (covers : clusters.Covers parent.graph.nodeCount)
    (length : p.length = child.graph.nodeCount) (assigned : none ∉ p) :
    ∃ (q : Partition) (weights parentWeights : List (List α)),
      child.expand p = .ok q ∧ child.graph.blockWeights p = .ok weights ∧
      parent.graph.blockWeights q = .ok parentWeights ∧
      (ExactAddition α → ∀ b : BlockId,
        weights[b]?.getD (Weight.zeros parent.graph.nodeDim) =
          parentWeights[b]?.getD (Weight.zeros parent.graph.nodeDim)) ∧
      ([] ∉ clusters → weights.length = parentWeights.length ∧
        (ExactAddition α → ∃ imbalance : List (List α),
          child.graph.blockImbalance p = .ok imbalance ∧
          parent.graph.blockImbalance q = .ok imbalance)) := by
  have graph := reached.wellFormed.graph
  have wellFormed := (reached.coarsen made).wellFormed.graph
  obtain ⟨accepts, rfl⟩ := (coarsen_ok graph).mp made
  have places := accepts.toPlaces
  rw [coarsened_of_covers graph covers] at wellFormed length ⊢
  have count : p.length = clusters.length := length.trans nodeCount_coarsened
  have carried := expand_coarsened length
  rw [childOrigins_default] at carried
  have above := Hypergraph.blockWeights_ok wellFormed length assigned
  have below := Hypergraph.blockWeights_ok graph (length_expanded _ _ p)
    (places.none_notMem_expanded count covers assigned)
  have sizes (exact : ExactAddition α) := places.weightIn_expanded graph exact count
  refine ⟨_, _, _, carried, above, below, fun exact b => ?_, fun nonempty => ?_⟩
  · have dim : (parent.coarsened clusters {}).graph.nodeDim = parent.graph.nodeDim := rfl
    rw [← dim, Hypergraph.getD_blockWeights, dim, Hypergraph.getD_blockWeights, sizes exact]
  · have blocks := places.blockCount_expanded count nonempty
    refine ⟨by rw [List.length_map, List.length_map, blocks], fun exact => ?_⟩
    let q := expanded (clusters.map .cluster) parent.graph.nodeCount p
    have same : (parent.coarsened clusters {}).graph.blockWeights p =
        parent.graph.blockWeights q := by
      rw [above, below, blocks]
      exact congrArg Except.ok (List.map_congr_left fun b _ => (sizes exact b).symm)
    have balanced : (parent.coarsened clusters {}).graph.blockImbalance p =
        parent.graph.blockImbalance q := Hypergraph.blockImbalance_congr rfl same
    have imbalance : (parent.coarsened clusters {}).graph.blockImbalance p = .ok _ :=
      bind_ok.mpr ⟨_, above, rfl⟩
    exact ⟨_, imbalance, balanced.symm.trans imbalance⟩

end

/-- A row that is covered by three clusters in two blocks. -/
theorem blockWeights_expand_line : ∃ child : Level Rat,
    (ofGraph (.line Rat)).coarsen [[1], [3, 0], [2]] ⟨true⟩ = .ok child ∧
    ∃ (q : Partition) (imbalance : List (List Rat)),
      child.expand [some 1, some 0, some 1] = .ok q ∧
      child.graph.blockWeights [some 1, some 0, some 1] = .ok [[2], [2]] ∧
      (Hypergraph.line Rat).blockWeights q = .ok [[2], [2]] ∧
      child.graph.blockImbalance [some 1, some 0, some 1] = .ok imbalance ∧
      (Hypergraph.line Rat).blockImbalance q = .ok imbalance := by
  have top : (ofGraph (.line Rat)).Reachable := .ofGraph Hypergraph.reachable_line
  obtain ⟨child, made⟩ := ok_of_isOk
    (x := (ofGraph (.line Rat)).coarsen [[1], [3, 0], [2]] ⟨true⟩) (by decide)
  obtain ⟨-, rfl⟩ := (coarsen_ok top.wellFormed.graph).mp made
  have covers : ∀ n < 4, n ∈ ([[1], [3, 0], [2]] : Clustering).flatten := by decide
  obtain ⟨q, weights, parentWeights, carried, above, below, -, blocks⟩ :=
    Reachable.blockWeights_expand top made covers (p := [some 1, some 0, some 1]) rfl (by decide)
  obtain ⟨imbalance, here, there⟩ := (blocks (by decide)).2 exactAddition_rat
  obtain rfl : [some 0, some 1, some 1, some 0] = q :=
    Except.ok.inj (Eq.trans (by decide +kernel) carried)
  obtain rfl : weights = [[2], [2]] := Except.ok.inj (above.symm.trans (by decide +kernel))
  obtain rfl : parentWeights = [[2], [2]] := Except.ok.inj (below.symm.trans (by decide +kernel))
  exact ⟨_, made, _, imbalance, carried, above, below, here, there⟩

end Level
end Multilevel
