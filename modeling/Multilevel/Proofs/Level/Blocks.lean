import Mathlib.Data.List.Nodup
import Multilevel.Proofs.Level.CoarsenByBlock
import Multilevel.Proofs.Level.Composition
import Multilevel.Proofs.Level.Conservation

/-!
# Weights split by blocks

Whether the weights of a cluster are added up or split by the blocks of its members, the same
clusters make the same child. Only its weights differ: each slot is the sum over the members in one
block, and where arithmetic is exact the slots add up to the weight that is not split and cost the
same.
-/
namespace Multilevel.Level

variable {α : Type} {parent : Level α} {clusters : Clustering} {count : Nat} {p : Partition}
  {members : List NodeId}

/-! ### Acceptance and shape -/

theorem acceptsByBlock_iff : parent.AcceptsByBlock clusters count p ↔
    0 < count ∧ p.length = parent.graph.nodeCount ∧ parent.Accepts clusters ∧
      ∀ n ∈ clusters.flatten, ∃ b < count, p.block? n = some b := by
  constructor
  · intro accepts
    refine ⟨accepts.positive, accepts.length, accepts.toAccepts, fun n listed => ?_⟩
    obtain ⟨members, present, member⟩ := List.mem_flatten.mp listed
    exact accepts.assigned members present n member
  · rintro ⟨positive, length, accepts, assigned⟩
    refine ⟨accepts, positive, length, fun members present n member => ?_⟩
    exact assigned n (List.mem_flatten.mpr ⟨members, present, member⟩)

/-- Two children that differ in their weights only, and have no virtual nodes. -/
structure SameShape (l m : Level α) : Prop where
  nodeCount : l.graph.nodeCount = m.graph.nodeCount
  edges : l.graph.edges = m.graph.edges
  parents : ∀ i, l.parentsOf i = m.parentsOf i
  fixed : l.fixed = m.fixed
  real : l.virtualCount = 0 ∧ m.virtualCount = 0

theorem virtualCount_cluster {l : Level α} (inStep : l.tier.InStep)
    (origins : l.origins = clusters.map .cluster) : l.virtualCount = 0 := by
  have flags : l.origins.map Origin.isVirtual = l.tier.virtual := inStep.map_isVirtual_origins
  rw [virtualCount, ← flags, origins, List.map_map]
  exact List.count_eq_zero.mpr (by simp [Origin.cluster])

def oneBlock (l : Level α) : Partition := List.replicate l.graph.nodeCount (some 0)

theorem block?_oneBlock {n : NodeId} (known : n < parent.graph.nodeCount) :
    parent.oneBlock.block? n = some 0 := by
  simp [oneBlock, Partition.block?, known]

section
variable [Zero α] [Add α]

/-! ### Slots -/

/-- Vectors that tell for each block what the nodes in it weigh together. -/
structure Slots (parent : Level α) (count : Nat) (p : Partition) (members : List NodeId)
    (slots : List (List α)) : Prop where
  count : slots.length = count
  width : ∀ slot ∈ slots, slot.length = parent.graph.nodeDim
  sum : ∀ b slot, slots[b]? = some slot →
    parent.graph.WeighTogether (members.filter (p.block? · = some b)) slot

theorem slots_togetherIn (wellFormed : parent.graph.WellFormed)
    (known : ∀ n ∈ members, n < parent.graph.nodeCount) :
    parent.Slots count p members ((List.range count).map (parent.togetherIn p members)) where
  count := by simp
  width := List.forall_mem_map.mpr fun b _ => length_togetherIn wellFormed known b
  sum b slot read := by
    rw [List.getElem?_map] at read
    obtain ⟨c, listed, rfl⟩ := Option.map_eq_some_iff.mp read
    obtain ⟨_, same⟩ := List.getElem?_eq_some_iff.mp listed
    rw [List.getElem_range] at same
    subst same
    exact Hypergraph.weighTogether_sumOf wellFormed fun n member =>
      known n (List.mem_filter.mp member).1

theorem sumOf_togetherIn (exact : ExactAddition α) (wellFormed : parent.graph.WellFormed)
    (known : ∀ n ∈ members, n < parent.graph.nodeCount) (assigned : Assigned count p members) :
    Weight.sumOf parent.graph.nodeDim ((List.range count).map (parent.togetherIn p members)) =
      parent.together members := by
  have lengths : ∀ b ∈ List.range count,
      ∀ w ∈ (members.filter (p.block? · = some b)).map parent.graph.weightsAt,
        w.length = parent.graph.nodeDim := by
    refine fun b _ => List.forall_mem_map.mpr fun n member => ?_
    exact Hypergraph.length_weightsAt wellFormed (known n (List.mem_filter.mp member).1)
  have once : ((List.range count).map some).Nodup :=
    List.nodup_range.map fun _ _ => Option.some.inj
  -- the members by their blocks are the members in another order
  have blocks := perm_groups p.block? members (fun _ => true) once fun n member => by
    obtain ⟨b, bound, held⟩ := assigned n member
    simp [held, bound]
  rw [List.flatMap_map, List.filter_true] at blocks
  have weights := blocks.map parent.graph.weightsAt
  rw [List.map_flatMap] at weights
  exact (exact.sumOf_flatMap lengths).symm.trans (exact.sumOf_perm weights)

/-! ### The same child -/

theorem sameShape_coarsened (accepts : parent.AcceptsByBlock clusters count p)
    (wellFormed : parent.graph.WellFormed) :
    (parent.coarsenedByBlock clusters count p).SameShape (parent.coarsened clusters {}) where
  nodeCount := by rw [nodeCount_coarsenedByBlock, nodeCount_coarsened]
  edges := by
    have split := quotientOf_coarsenByBlock wellFormed (accepts.coarsenByBlock_eq wellFormed)
    have plain : (parent.coarsened clusters {}).QuotientOf parent :=
      quotientOf_coarsen wellFormed (accepts.toAccepts.coarsen_eq wellFormed)
    rw [split.edges, plain.edges, origins_coarsenedByBlock, origins_coarsened_default]
  parents i := by
    simp only [parentsOf, coarsenedByBlock, coarsened, tier, Tier.ofOrigins, childOrigins_default]
  fixed := rfl
  real := ⟨virtualCount_cluster (accepts.wellFormed wellFormed).inStep origins_coarsenedByBlock,
    virtualCount_cluster (accepts.toAccepts.wellFormed wellFormed).inStep origins_coarsened_default⟩

section
variable {i : NodeId} (read : clusters[i]? = some members)
include read

theorem nodeWeights_coarsenedByBlock :
    (parent.coarsenedByBlock clusters count p).graph.nodeWeights i =
      .ok (parent.slotsOf count p members) := by
  have known : i < (parent.coarsenedByBlock clusters count p).graph.nodeCount := by
    rw [nodeCount_coarsenedByBlock]
    exact (List.getElem?_eq_some_iff.mp read).1
  rw [Hypergraph.nodeWeights_eq known]
  refine congrArg Except.ok (Hypergraph.weightsAt_ofParts ?_)
  rw [List.getElem?_map, read]
  rfl

theorem nodeWeights_coarsened :
    (parent.coarsened clusters {}).graph.nodeWeights i = .ok (parent.together members) := by
  have bound : i < clusters.length := (List.getElem?_eq_some_iff.mp read).1
  have known : i < (parent.coarsened clusters {}).graph.nodeCount := by
    rwa [nodeCount_coarsened]
  rw [Hypergraph.nodeWeights_eq known, weightsAt_coarsened bound, Clustering.members, read]
  rfl

end

theorem AcceptsByBlock.costOfNode [Neg α] [Mul α] (accepts : parent.AcceptsByBlock clusters count p)
    (exact : ExactArithmetic α) (wellFormed : parent.graph.WellFormed) {i : NodeId}
    (read : clusters[i]? = some members) :
    ∃ cost, (parent.coarsenedByBlock clusters count p).graph.costOfNode i = .ok cost ∧
      (parent.coarsened clusters {}).graph.costOfNode i = .ok cost := by
  have present := List.mem_of_getElem? read
  have known := accepts.known_of_mem present
  have slots : parent.Slots count p members _ := slots_togetherIn wellFormed known
  -- with a first slot the sum does not start from zeros, whose products nothing is known of
  have nonempty : (List.range count).map (parent.togetherIn p members) ≠ [] := by
    rw [← List.length_pos_iff, slots.count]
    exact accepts.positive
  have sum : Weight.sumOf parent.graph.factors.node.length
      ((List.range count).map (parent.togetherIn p members)) = parent.together members :=
    sumOf_togetherIn exact.toExactAddition wellFormed known (accepts.assigned members present)
  have width := (weighs_together wellFormed accepts.toPlaces members present).length
  have split := exact.scalar_flatten nonempty slots.width
  rw [slots.count, sum, Weight.scalar_ok width] at split
  refine ⟨total (List.zipWith (· * ·) (parent.together members) parent.graph.factors.node), ?_, ?_⟩
  · rw [Hypergraph.costOfNode, nodeWeights_coarsenedByBlock read]
    exact split
  · rw [Hypergraph.costOfNode, nodeWeights_coarsened read]
    exact Weight.scalar_ok width

/-! ### One block -/

theorem slotWeights_oneBlock (wellFormed : parent.graph.WellFormed)
    (places : parent.Places clusters) (present : members ∈ clusters) :
    parent.slotWeights 1 parent.oneBlock members = parent.clusterWeight members := by
  have block : ∀ n ∈ members, parent.oneBlock.block? n = some 0 :=
    fun n member => block?_oneBlock (places.known_of_mem present n member)
  have all : members.filter (parent.oneBlock.block? · = some 0) = members :=
    List.filter_eq_self.mpr fun n member => decide_eq_true (block n member)
  have whole : parent.together members = parent.slotsOf 1 parent.oneBlock members := by
    simp [slotsOf, togetherIn, all]
  have split := ((weighs_slotsOf wellFormed places members present).result _).mpr
    ⟨fun n member => ⟨0, Nat.one_pos, block n member⟩, whole⟩
  have plain := ((weighs_together wellFormed places members present).result _).mpr ⟨trivial, rfl⟩
  exact split.trans plain.symm

omit [Add α] in
/-- Without virtual nodes, and with clusters alone in the placement, both loops over the edges do
the same: the placement stays what it is. -/
theorem foldlM_addImage_default {real : Nat} {placement : Placement} {edges : List (Edge α)}
    (clustered : ∀ n c, placement.node? n = some c → c < real) (child : Tier α) :
    edges.foldlM (Sweep.addImage {} real) ⟨child, placement⟩ =
      (Sweep.mk · placement) <$> edges.foldlM (addSpanned placement) child := by
  have inside (n : NodeId) : (placement.node? n).filter (· < real) = placement.node? n := by
    cases held : placement.node? n with
    | none => rfl
    | some c => simp [clustered n c held]
  have step (child : Tier α) (e : Edge α) : Sweep.addImage {} real ⟨child, placement⟩ e =
      (Sweep.mk · placement) <$> addSpanned placement child e := by
    have spanned : Sweep.span {} real ⟨child, placement⟩ e =
        .ok (⟨child, placement⟩, Ordered.ofList (e.members.filterMap placement.node?)) := by
      simp only [Sweep.span, inside]
      rfl
    rw [Sweep.addImage, spanned, addSpanned]
    change (if _ then _ else _) = _
    split <;> rfl
  induction edges generalizing child with
  | nil => rfl
  | cons e edges ih =>
    rw [List.foldlM_cons, List.foldlM_cons, step]
    cases addSpanned placement child e with
    | error => rfl
    | ok next => exact ih next

/-- Nothing is split where all nodes are in one block, and clusters are refused for the same
reasons. -/
theorem coarsenByBlock_oneBlock (wellFormed : parent.graph.WellFormed) :
    parent.coarsenByBlock clusters 1 parent.oneBlock = parent.coarsen clusters {} := by
  have fits : parent.graph.checkPartition parent.oneBlock = .ok () :=
    Hypergraph.checkPartition_ok.mpr List.length_replicate
  have factors : (List.replicate 1 parent.graph.factors.node).flatten =
      parent.graph.factors.node := List.append_nil _
  rw [coarsen, coarsenByBlock, if_neg Nat.one_ne_zero, fits, factors]
  change parent.placement clusters >>= _ = parent.placement clusters >>= _
  refine bind_congr_ok fun inside placing => bind_congr_ok fun bare start => ?_
  obtain ⟨places, rfl⟩ := placement_ok.mp placing
  obtain ⟨-, -, rfl⟩ := Hypergraph.empty_ok.mp start
  have nodes (child : Tier α) :
      clusters.foldlM (parent.addCluster (parent.slotWeights 1 parent.oneBlock)) child =
        clusters.foldlM (parent.addCluster parent.clusterWeight) child := by
    refine foldlM_congr fun child members present => ?_
    rw [addCluster, slotWeights_oneBlock wellFormed places present]
    rfl
  dsimp only
  rw [nodes]
  refine bind_congr_ok fun child built => ?_
  have real : child.graph.nodeCount = (clusters.map Origin.cluster).length := by
    obtain ⟨-, rfl⟩ := (foldlM_addCluster_start_ok (weighs_together wellFormed places)).mp built
    rw [List.length_map, ← List.length_map parent.together]
    exact Hypergraph.nodeCount_ofParts _ _ _
  have clustered (n c : NodeId)
      (held : (placed (clusters.map .cluster) parent.graph.nodeCount).node? n = some c) :
      c < child.graph.nodeCount := by
    rw [node?_placed places.placeable.once places.placeable.known] at held
    exact real ▸ lt_of_owner held
  rw [foldlM_addImage_default clustered, bind_map_left]

/-! ### Both constructions -/

/-- Clusters are accepted by block when they are accepted and all their members are in the blocks.
The child is the one that is made without blocks, but for its weights, which are split into the
sums of the blocks. -/
theorem Reachable.coarsenByBlock_agrees [One α] [Neg α] [Mul α] (reached : parent.Reachable)
    (clusters : Clustering) (count : Nat) (p : Partition) :
    ((∃ child, parent.coarsenByBlock clusters count p = .ok child) ↔
      0 < count ∧ p.length = parent.graph.nodeCount ∧
      (∃ plain, parent.coarsen clusters {} = .ok plain) ∧
      ∀ n ∈ clusters.flatten, ∃ b < count, p.block? n = some b) ∧
    (∀ child, parent.coarsenByBlock clusters count p = .ok child →
      ∃ plain, parent.coarsen clusters {} = .ok plain ∧ child.SameShape plain ∧
        child.graph.nodeCount = clusters.length ∧
        ∀ i members, clusters[i]? = some members → child.parentsOf i = .ok members ∧
          ∃ slots, parent.Slots count p members slots ∧
            child.graph.nodeWeights i = .ok slots.flatten ∧
            (ExactAddition α → ∃ weight, Weight.sum parent.graph.nodeDim slots = .ok weight ∧
              plain.graph.nodeWeights i = .ok weight) ∧
            (ExactArithmetic α → ∃ cost, child.graph.costOfNode i = .ok cost ∧
              plain.graph.costOfNode i = .ok cost)) ∧
    parent.coarsenByBlock clusters 1 parent.oneBlock = parent.coarsen clusters {} := by
  have graph := reached.wellFormed.graph
  refine ⟨?_, ?_, coarsenByBlock_oneBlock graph⟩
  · simp only [coarsenByBlock_ok graph, coarsen_ok graph, exists_and_left, exists_eq, and_true]
    exact acceptsByBlock_iff
  · intro child made
    obtain ⟨accepts, rfl⟩ := (coarsenByBlock_ok graph).mp made
    have shape := sameShape_coarsened accepts graph
    refine ⟨_, accepts.toAccepts.coarsen_eq graph, shape, nodeCount_coarsenedByBlock, ?_⟩
    intro i members read
    have present := List.mem_of_getElem? read
    have known := accepts.known_of_mem present
    have slots : parent.Slots count p members _ := slots_togetherIn graph known
    refine ⟨(shape.parents i).trans (parentsOf_coarsened.mpr read), _, slots,
      nodeWeights_coarsenedByBlock read, fun exact => ?_, fun exact => ?_⟩
    · have sum := sumOf_togetherIn exact graph known (accepts.assigned members present)
      exact ⟨_, Weight.sum_ok slots.width, sum ▸ nodeWeights_coarsened read⟩
    · exact accepts.costOfNode exact graph read

/-- A row of four nodes in two blocks, whose ends are in one cluster and whose middle in another. -/
theorem coarsenByBlock_agrees_line : ∃ (child plain : Level Rat) (slots : List (List Rat)),
    (ofGraph (.line Rat)).coarsenByBlock [[3, 0], [1, 2]] 2 [some 0, some 0, some 1, some 1] =
      .ok child ∧
    (ofGraph (.line Rat)).coarsen [[3, 0], [1, 2]] {} = .ok plain ∧ child.SameShape plain ∧
    (ofGraph (.line Rat)).Slots 2 [some 0, some 0, some 1, some 1] [3, 0] slots ∧
    child.graph.nodeWeights 0 = .ok slots.flatten ∧
    (∃ weight, Weight.sum 1 slots = .ok weight ∧ plain.graph.nodeWeights 0 = .ok weight) ∧
    ∃ cost, child.graph.costOfNode 0 = .ok cost ∧ plain.graph.costOfNode 0 = .ok cost := by
  have top : (ofGraph (.line Rat)).Reachable := .ofGraph Hypergraph.reachable_line
  obtain ⟨accepted, agrees, -⟩ := Reachable.coarsenByBlock_agrees top [[3, 0], [1, 2]] 2
    [some 0, some 0, some 1, some 1]
  obtain ⟨child, split⟩ := accepted.mpr
    ⟨by decide, by decide, ok_of_isOk (by decide), by decide⟩
  obtain ⟨plain, whole, shape, -, each⟩ := agrees child split
  obtain ⟨-, slots, parts, weights, sum, cost⟩ := each 0 [3, 0] rfl
  exact ⟨child, plain, slots, split, whole, shape, parts, weights, sum exactAddition_rat,
    cost exactArithmetic_rat⟩

end
end Multilevel.Level
