import Multilevel.Proofs.Level.Balance
import Multilevel.Proofs.Level.Blocks

namespace Multilevel.Level

variable {α : Type} [Zero α] [Add α] {parent : Level α} {clusters : Clustering} {count : Nat}
  {p : Partition}

omit [Zero α] [Add α] in
theorem Places.perm_range (places : parent.Places clusters)
    (covers : clusters.Covers parent.graph.nodeCount) :
    clusters.flatten.Perm (List.range parent.graph.nodeCount) := by
  refine (List.perm_ext_iff_of_nodup places.once List.nodup_range).mpr fun n => ?_
  rw [List.mem_range]
  exact ⟨places.known n, covers n⟩

/-- What the clusters have in a block, added up cluster by cluster. -/
def slotTotal (parent : Level α) (clusters : Clustering) (p : Partition) (b : BlockId) : List α :=
  Weight.sumOf parent.graph.nodeDim (clusters.map (parent.togetherIn p · b))

theorem Places.length_togetherIn (places : parent.Places clusters)
    (wellFormed : parent.graph.WellFormed) (b : BlockId) :
    ∀ members ∈ clusters, (parent.togetherIn p members b).length = parent.graph.nodeDim :=
  fun _ present => Level.length_togetherIn wellFormed (places.known_of_mem present) b

theorem Places.length_slotTotal (places : parent.Places clusters)
    (wellFormed : parent.graph.WellFormed) (b : BlockId) :
    (parent.slotTotal clusters p b).length = parent.graph.nodeDim :=
  Weight.length_sumOf (List.forall_mem_map.mpr (places.length_togetherIn wellFormed b))

theorem AcceptsByBlock.totalNodeWeight_eq (accepts : parent.AcceptsByBlock clusters count p)
    (wellFormed : parent.graph.WellFormed) :
    (parent.coarsenedByBlock clusters count p).graph.totalNodeWeight =
      .ok ((List.range count).map (parent.slotTotal clusters p)).flatten := by
  have places := accepts.toPlaces
  have dim : (parent.coarsenedByBlock clusters count p).graph.nodeDim =
      (List.range count).length * parent.graph.nodeDim := by
    rw [List.length_range]
    exact length_slotFactors parent count
  have weights : (parent.coarsenedByBlock clusters count p).graph.nodes.map Node.weights =
      clusters.map (parent.slotsOf count p) := Hypergraph.weights_ofParts _ _ _
  have widths : ∀ w ∈ clusters.map (parent.slotsOf count p),
      w.length = (List.range count).length * parent.graph.nodeDim := by
    refine List.forall_mem_map.mpr fun members present => ?_
    rw [List.length_range, ← length_slotFactors]
    exact (weighs_slotsOf wellFormed places members present).length
  rw [Hypergraph.totalNodeWeight, dim, weights, Weight.sum_ok widths]
  exact congrArg Except.ok (Weight.sumOf_flatten fun members present b _ =>
    places.length_togetherIn wellFormed b members present)

/-- Where addition is exact, it does not matter that the nodes of a block come in clusters. -/
theorem Places.slotTotal_eq (places : parent.Places clusters) (wellFormed : parent.graph.WellFormed)
    (exact : ExactAddition α) (covers : clusters.Covers parent.graph.nodeCount) (b : BlockId) :
    parent.slotTotal clusters p b = parent.graph.weightIn p b := by
  have lengths : ∀ members ∈ clusters,
      ∀ w ∈ (members.filter (p.block? · = some b)).map parent.graph.weightsAt,
        w.length = parent.graph.nodeDim := fun members present =>
    List.forall_mem_map.mpr fun n member => Hypergraph.length_weightsAt wellFormed
      (places.known_of_mem present n (List.mem_filter.mp member).1)
  have nodes : (clusters.flatMap (List.filter (p.block? · = some b))).Perm
      (parent.graph.nodesIn p b) := by
    rw [List.flatMap_def, ← List.filter_flatten]
    exact (places.perm_range covers).filter _
  have weights := nodes.map parent.graph.weightsAt
  rw [List.map_flatMap] at weights
  exact (exact.sumOf_flatMap lengths).symm.trans (exact.sumOf_perm weights)

/-- The blocks of a partition that assigns every node share out the weight of the graph. Split by the
same partition, any child whose clusters cover the parent weighs in each slot what the block weighs,
up to the order of addition, and nothing in the slots that no block uses. -/
theorem Reachable.blockWeights_partition [One α] (reached : parent.Reachable)
    (length : p.length = parent.graph.nodeCount) (assigned : none ∉ p) :
    ∃ sizes : List (List α), parent.graph.blockWeights p = .ok sizes ∧
      (∀ k, sizes.length ≤ k ↔ ∀ b, some b ∈ p → b < k) ∧
      parent.Slots sizes.length p (List.range parent.graph.nodeCount) sizes ∧
      (ExactAddition α → ∃ whole, Weight.sum parent.graph.nodeDim sizes = .ok whole ∧
        parent.graph.totalNodeWeight = .ok whole) ∧
      ∀ (clusters : Clustering) (count : Nat), clusters.Covers parent.graph.nodeCount →
        (∀ b, some b ∈ p → b < count) →
        ((∃ child, parent.coarsenByBlock clusters count p = .ok child) ↔
          0 < count ∧ ∃ plain, parent.coarsen clusters {} = .ok plain) ∧
        ∀ child, parent.coarsenByBlock clusters count p = .ok child →
          ∃ slots : List (List α), child.graph.totalNodeWeight = .ok slots.flatten ∧
            slots.length = count ∧ (∀ slot ∈ slots, slot.length = parent.graph.nodeDim) ∧
            (∀ (b : BlockId) slot, slots[b]? = some slot → ∃ parts : List (List α),
              List.Forall₂ (fun members part => parent.graph.WeighTogether
                (members.filter (p.block? · = some b)) part) clusters parts ∧
              Weight.sum parent.graph.nodeDim parts = .ok slot) ∧
            (ExactAddition α → ∀ (b : BlockId) slot, slots[b]? = some slot →
              slot = sizes[b]?.getD (Weight.zeros parent.graph.nodeDim)) := by
  have graph := reached.wellFormed.graph
  have inside : ∀ n ∈ List.range parent.graph.nodeCount, n < parent.graph.nodeCount :=
    fun _ => List.mem_range.mp
  have held (count : Nat) (above : ∀ b, some b ∈ p → b < count) (n : NodeId)
      (known : n < parent.graph.nodeCount) : ∃ b < count, p.block? n = some b := by
    obtain ⟨b, found⟩ := Partition.exists_block assigned (length ▸ known)
    exact ⟨b, above b (Partition.mem_of_block? found), found⟩
  -- the blocks are those of a single cluster with all nodes in it
  have sizes : parent.Slots p.blockCount p (List.range parent.graph.nodeCount)
      ((List.range p.blockCount).map (parent.graph.weightIn p)) := slots_togetherIn graph inside
  refine ⟨_, Hypergraph.blockWeights_ok graph length assigned, ?_, ?_, fun exact => ?_, ?_⟩
  · intro k
    rw [sizes.count]
    exact Partition.blockCount_le_iff
  · rwa [sizes.count]
  · refine ⟨_, Weight.sum_ok sizes.width, ?_⟩
    rw [Hypergraph.totalNodeWeight_eq graph]
    exact congrArg Except.ok (sumOf_togetherIn exact graph inside fun n known =>
      held _ (fun _ => Partition.lt_blockCount_of_mem) n (inside n known)).symm
  · intro clusters count covers above
    constructor
    · simp only [coarsenByBlock_ok graph, coarsen_ok graph, exists_and_left, exists_eq, and_true]
      rw [acceptsByBlock_iff]
      constructor
      · rintro ⟨positive, -, accepts, -⟩
        exact ⟨positive, accepts⟩
      · intro ⟨positive, accepts⟩
        exact ⟨positive, length, accepts, fun n listed =>
          held count above n (accepts.known n listed)⟩
    · intro child made
      obtain ⟨accepts, rfl⟩ := (coarsenByBlock_ok graph).mp made
      have places := accepts.toPlaces
      refine ⟨_, accepts.totalNodeWeight_eq graph, by simp, ?_, ?_, ?_⟩
      · exact List.forall_mem_map.mpr fun b _ => places.length_slotTotal graph b
      · intro b slot read
        obtain ⟨-, rfl⟩ := Hypergraph.getElem?_table.mp read
        refine ⟨clusters.map (parent.togetherIn p · b), ?_, ?_⟩
        · rw [List.forall₂_map_right_iff, List.forall₂_same]
          exact fun members present => Hypergraph.weighTogether_sumOf graph fun n member =>
            places.known_of_mem present n (List.mem_filter.mp member).1
        · exact Weight.sum_ok (List.forall_mem_map.mpr (places.length_togetherIn graph b))
      · intro exact b slot read
        obtain ⟨-, rfl⟩ := Hypergraph.getElem?_table.mp read
        rw [Hypergraph.getD_blockWeights, places.slotTotal_eq graph exact covers]

def pebbles : Hypergraph Rat :=
  .ofParts ⟨[1, 1], [1]⟩ [[1, 0], [2, 5], [4, 0], [8, 5]] [⟨[1], [0, 3]⟩]

/-- The child has a seventh slot that no block falls into, and one node that nothing falls into. -/
theorem blockWeights_partition_pebbles :
    pebbles.blockWeights [some 3, some 3, some 1, some 5] =
      .ok [[0, 0], [4, 0], [0, 0], [3, 5], [0, 0], [8, 5]] ∧
    Weight.sum 2 ([[0, 0], [4, 0], [0, 0], [3, 5], [0, 0], [8, 5]] : List (List Rat)) =
      .ok [15, 10] ∧
    pebbles.totalNodeWeight = .ok [15, 10] ∧
    ∃ child, (ofGraph pebbles).coarsenByBlock [[2, 0], [], [3, 1]] 7
      [some 3, some 3, some 1, some 5] = .ok child ∧
    ∃ slots : List (List Rat), child.graph.totalNodeWeight = .ok slots.flatten ∧
      slots.length = 7 ∧ slots[3]? = some [3, 5] ∧ slots[6]? = some [0, 0] := by
  have built : Hypergraph.assemble ⟨[1, 1], [1]⟩ [[1, 0], [2, 5], [4, 0], [8, 5]]
      [⟨[1], [0, 3]⟩] = .ok pebbles := rfl
  have top : (ofGraph pebbles).Reachable := .ofGraph (Hypergraph.reachable_of_assemble built)
  have covers : ∀ n < 4, n ∈ ([[2, 0], [], [3, 1]] : Clustering).flatten := by decide
  obtain ⟨sizes, weighed, -, -, total, split⟩ := Reachable.blockWeights_partition top
    (p := [some 3, some 3, some 1, some 5]) rfl (by decide)
  obtain ⟨accepted, children⟩ := split [[2, 0], [], [3, 1]] 7 covers (by simp)
  obtain ⟨child, made⟩ := accepted.mpr ⟨by decide, ok_of_isOk (by decide)⟩
  obtain ⟨slots, weight, count, -, -, same⟩ := children child made
  obtain ⟨whole, sum, all⟩ := total exactAddition_rat
  obtain rfl : [[0, 0], [4, 0], [0, 0], [3, 5], [0, 0], [8, 5]] = sizes :=
    Except.ok.inj (Eq.trans (by decide +kernel) weighed)
  obtain rfl : [15, 10] = whole := Except.ok.inj (Eq.trans (by decide +kernel) sum)
  have slot (b : BlockId) (inside : b < 7) : slots[b]? = some
      (([[0, 0], [4, 0], [0, 0], [3, 5], [0, 0], [8, 5]] : List (List Rat))[b]?.getD [0, 0]) := by
    rw [← count] at inside
    rw [List.getElem?_eq_getElem inside]
    exact congrArg some (same exactAddition_rat b _ (List.getElem?_eq_getElem inside))
  exact ⟨weighed, sum, all, child, made, slots, weight, count, slot 3 (by decide), slot 6 (by decide)⟩

end Multilevel.Level
