import Multilevel.Proofs.Hypergraph.Cut
import Multilevel.Proofs.Level.Coarsen

/-!
# Children by block

Where a partition of the parent splits the weights of a cluster, each block has the sum over its
members. The slots of the blocks lie behind one another in one vector, which `slotWeights_ok` reads as
a table. Clusters are accepted when coarsening accepts them and every member has a block below the
block count (`coarsenByBlock_ok`).
-/
namespace Multilevel.Level

variable {α : Type} [Zero α] [Add α] {parent : Level α} {clusters : Clustering}

/-! ### Weights by block -/

def Assigned (count : Nat) (p : Partition) (members : List NodeId) : Prop :=
  ∀ n ∈ members, ∃ b < count, p.block? n = some b

def togetherIn (parent : Level α) (p : Partition) (members : List NodeId) (b : BlockId) : List α :=
  parent.together (members.filter (p.block? · = some b))

omit [Zero α] in
theorem addToSlot_ok {count : Nat} {p : Partition} {slots next : List α} {n : NodeId}
    (known : n < parent.graph.nodeCount) : parent.addToSlot count p slots n = .ok next ↔
      ∃ b < count, p.block? n = some b ∧ Weight.addWithin (b * parent.graph.nodeDim)
        parent.graph.nodeDim slots (parent.graph.weightsAt n) = .ok next := by
  unfold addToSlot
  rw [Hypergraph.nodeWeights_eq known]
  cases p.block? n with
  | none => simp
  | some b =>
    by_cases bound : b < count
    · simp [Option.filter, bound, bind, Except.bind]
    · simp [Option.filter, bound]

omit [Zero α] in
theorem foldlM_addToSlot_ok {count : Nat} {p : Partition} {members : List NodeId}
    {slots last : List α} (known : ∀ n ∈ members, n < parent.graph.nodeCount) :
    members.foldlM (parent.addToSlot count p) slots = .ok last ↔ Assigned count p members ∧
      (members.map fun n => ((p.block? n).getD 0, parent.graph.weightsAt n)).foldlM
        (fun slots e => Weight.addWithin (e.1 * parent.graph.nodeDim) parent.graph.nodeDim slots e.2)
        slots = .ok last := by
  induction members generalizing slots with
  | nil => simp [Assigned]
  | cons n members ih =>
    obtain ⟨first, others⟩ := List.forall_mem_cons.mp known
    rw [List.foldlM_cons, List.map_cons, List.foldlM_cons, bind_ok, bind_ok, Assigned,
      List.forall_mem_cons]
    constructor
    · rintro ⟨next, step, rest⟩
      obtain ⟨b, bound, held, added⟩ := (addToSlot_ok first).mp step
      obtain ⟨assigned, later⟩ := (ih others).mp rest
      rw [held]
      exact ⟨⟨⟨b, bound, rfl⟩, assigned⟩, next, added, later⟩
    · rintro ⟨⟨⟨b, bound, held⟩, assigned⟩, next, added, later⟩
      rw [held] at added
      exact ⟨next, (addToSlot_ok first).mpr ⟨b, bound, held, added⟩, (ih others).mpr ⟨assigned, later⟩⟩

/-- The weights that a cluster has together in each block, behind one another. -/
def slotsOf (parent : Level α) (count : Nat) (p : Partition) (members : List NodeId) : List α :=
  ((List.range count).map (parent.togetherIn p members)).flatten

theorem slotWeights_ok {count : Nat} {p : Partition} {members : List NodeId}
    (wellFormed : parent.graph.WellFormed) (known : ∀ n ∈ members, n < parent.graph.nodeCount)
    {slots : List α} : parent.slotWeights count p members = .ok slots ↔
      Assigned count p members ∧ slots = parent.slotsOf count p members := by
  have start : (Weight.zeros (parent.graph.nodeDim * count) : List α) =
      ((List.range count).map fun _ => Weight.zeros parent.graph.nodeDim).flatten := by
    rw [List.map_const', Weight.zeros, Weight.zeros, List.flatten_replicate_replicate,
      List.length_range, Nat.mul_comm]
  have lengths : ∀ e ∈ members.map fun n => ((p.block? n).getD 0, parent.graph.weightsAt n),
      e.2.length = parent.graph.nodeDim :=
    List.forall_mem_map.mpr fun n member => Hypergraph.length_weightsAt wellFormed (known n member)
  have zeros : ∀ slot ∈ (List.range count).map fun _ => (Weight.zeros parent.graph.nodeDim : List α),
      slot.length = parent.graph.nodeDim := List.forall_mem_map.mpr fun _ _ => Weight.length_zeros _
  rw [slotWeights, foldlM_addToSlot_ok known, start, slotsOf]
  refine and_congr_right fun assigned => ?_
  have inside : ∀ e ∈ members.map fun n => ((p.block? n).getD 0, parent.graph.weightsAt n),
      e.1 < ((List.range count).map fun _ => (Weight.zeros parent.graph.nodeDim : List α)).length := by
    refine List.forall_mem_map.mpr fun n member => ?_
    obtain ⟨b, bound, held⟩ := assigned n member
    simpa [held] using bound
  have own (b : BlockId) : ((members.map fun n => ((p.block? n).getD 0, parent.graph.weightsAt n)).filter
      (·.1 = b)).map Prod.snd = (members.filter (p.block? · = some b)).map parent.graph.weightsAt := by
    rw [List.filter_map, List.map_map]
    refine congrArg (List.map _) (List.filter_congr fun n member => ?_)
    obtain ⟨c, -, held⟩ := assigned n member
    simp [held]
  rw [Hypergraph.foldlM_addWithin zeros lengths inside,
    Hypergraph.foldlM_addAt (fun _ => Weight.length_zeros _) lengths, map_ok]
  simp only [own, Except.ok.injEq, exists_eq_left']
  exact eq_comm

theorem length_togetherIn {p : Partition} {members : List NodeId}
    (wellFormed : parent.graph.WellFormed) (known : ∀ n ∈ members, n < parent.graph.nodeCount)
    (b : BlockId) : (parent.togetherIn p members b).length = parent.graph.nodeDim := by
  refine Weight.length_sumOf (List.forall_mem_map.mpr fun n member => ?_)
  exact Hypergraph.length_weightsAt wellFormed (known n (List.mem_filter.mp member).1)

def slotFactors (parent : Level α) (count : Nat) : Factors α :=
  ⟨(List.replicate count parent.graph.factors.node).flatten, parent.graph.factors.edge⟩

omit [Zero α] [Add α] in
theorem length_slotFactors (parent : Level α) (count : Nat) :
    (parent.slotFactors count).node.length = count * parent.graph.nodeDim := by
  rw [slotFactors, List.length_flatten, List.map_replicate, List.sum_replicate_nat]
  rfl

theorem weighs_slotsOf {count : Nat} {p : Partition} (wellFormed : parent.graph.WellFormed)
    (places : parent.Places clusters) :
    ∀ members ∈ clusters, Weighs (parent.slotWeights count p) (parent.slotFactors count).node.length
      (Assigned count p) (parent.slotsOf count p) members := by
  intro members present
  have known := places.known_of_mem present
  refine ⟨fun w => slotWeights_ok wellFormed known, ?_⟩
  have width : ∀ slot ∈ (List.range count).map (parent.togetherIn p members),
      slot.length = parent.graph.nodeDim :=
    List.forall_mem_map.mpr fun b _ => length_togetherIn wellFormed known b
  rw [length_slotFactors, slotsOf, Hypergraph.length_flatten_of_width width, List.length_map,
    List.length_range]

/-! ### Hyperedges -/

omit [Zero α] [Add α] in
theorem foldlM_addSpanned {placement : Placement} {weights : List (List α)} {origins : List Origin}
    {edges : List (Edge α)} (factors : Factors α) (fixed : Fixed) (before : List (Edge α))
    (held : ∀ n, placement.node? n = owner origins n) (size : origins.length = weights.length)
    (lengths : ∀ e ∈ edges, e.weights.length = factors.edge.length) :
    edges.foldlM (addSpanned placement) (.ofOrigins (.ofParts factors weights before) origins fixed) =
      .ok (.ofOrigins (.ofParts factors weights
        (before ++ edges.filterMap (Edge.along (owner origins)))) origins fixed) := by
  induction edges generalizing before with
  | nil =>
    rw [List.foldlM_nil, List.filterMap_nil, List.append_nil]
    rfl
  | cons e edges ih =>
    obtain ⟨first, others⟩ := List.forall_mem_cons.mp lengths
    have spanned : Ordered.ofList (e.members.filterMap placement.node?) =
        e.imageAlong (owner origins) := by
      rw [Edge.imageAlong, funext held]
    rw [List.foldlM_cons, addSpanned, spanned]
    by_cases spans : 1 < (e.imageAlong (owner origins)).length
    · have kept := Edge.along_eq_some.mpr ⟨spans, rfl⟩
      have added : (Tier.ofOrigins (.ofParts factors weights before) origins fixed).addEdge
          (e.imageAlong (owner origins)) e.weights = .ok _ :=
        addEdge_ofOrigins (size ▸ wellFormed_along first kept)
      rw [if_pos spans, added, List.filterMap_cons_some kept]
      refine (ih _ others).trans ?_
      rw [List.append_assoc]
      rfl
    · have lost : e.along (owner origins) = none := if_neg spans
      rw [if_neg spans, List.filterMap_cons_none lost]
      exact ih _ others

/-! ### Children -/

/-- The child that accepted clusters make when their weights are split by blocks. -/
def coarsenedByBlock (parent : Level α) (clusters : Clustering) (count : Nat) (p : Partition) :
    Level α :=
  .child (.ofOrigins
    (.ofParts (parent.slotFactors count)
      (clusters.map (parent.slotsOf count p))
      (parent.graph.edges.filterMap (Edge.along (owner (clusters.map .cluster)))))
    (clusters.map .cluster) (parent.inherited 0 clusters)) parent

theorem origins_coarsenedByBlock {count : Nat} {p : Partition} :
    (parent.coarsenedByBlock clusters count p).origins = clusters.map .cluster :=
  Tier.origins_ofOrigins _ _ _

theorem nodeCount_coarsenedByBlock {count : Nat} {p : Partition} :
    (parent.coarsenedByBlock clusters count p).graph.nodeCount = clusters.length :=
  (Hypergraph.nodeCount_ofParts _ _ _).trans (List.length_map _)

/-- What a clustering, a block count and a partition have to meet to be accepted together. -/
structure AcceptsByBlock (parent : Level α) (clusters : Clustering) (count : Nat) (p : Partition) :
    Prop extends parent.Accepts clusters where
  positive : 0 < count
  length : p.length = parent.graph.nodeCount
  assigned : ∀ members ∈ clusters, Assigned count p members

theorem accepts_of_coarsenByBlock {child : Level α} {count : Nat} {p : Partition}
    (wellFormed : parent.graph.WellFormed)
    (made : parent.coarsenByBlock clusters count p = .ok child) :
    parent.AcceptsByBlock clusters count p := by
  unfold coarsenByBlock at made
  split at made
  · cases made
  · rename_i positive
    obtain ⟨_, fits, made⟩ := bind_ok.mp made
    obtain ⟨inside, free, made⟩ := bind_ok.mp made
    obtain ⟨places, rfl⟩ := placement_ok.mp free
    obtain ⟨bare, start, made⟩ := bind_ok.mp made
    obtain ⟨-, -, rfl⟩ := Hypergraph.empty_ok.mp start
    obtain ⟨tier, built, -⟩ := bind_ok.mp made
    obtain ⟨accepted, -⟩ := (foldlM_addCluster_start_ok (weighs_slotsOf wellFormed places)).mp built
    exact ⟨⟨places, fun members present => (accepted members present).2⟩,
      Nat.pos_of_ne_zero positive, Hypergraph.checkPartition_ok.mp fits,
      fun members present => (accepted members present).1⟩

theorem AcceptsByBlock.coarsenByBlock_eq {count : Nat} {p : Partition}
    (accepts : parent.AcceptsByBlock clusters count p) (wellFormed : parent.graph.WellFormed) :
    parent.coarsenByBlock clusters count p = .ok (parent.coarsenedByBlock clusters count p) := by
  have places := accepts.toPlaces
  have lengths (e : Edge α) (member : e ∈ parent.graph.edges) :
      e.weights.length = parent.graph.edgeDim := (wellFormed.edges e member).weights
  have factor : (parent.slotFactors count).node ≠ [] := by
    rw [← List.length_pos_iff, length_slotFactors]
    exact Nat.mul_pos accepts.positive (List.length_pos_iff.mpr wellFormed.nodeFactor)
  have fits : parent.graph.checkPartition p = .ok () :=
    Hypergraph.checkPartition_ok.mpr accepts.length
  have inside := placement_ok.mpr ⟨places, rfl⟩
  have start := Hypergraph.empty_ok.mpr ⟨factor, wellFormed.edgeFactor, rfl⟩
  have clusterNodes := (foldlM_addCluster_start_ok (weighs_slotsOf wellFormed places)).mpr
    ⟨fun members present =>
      ⟨accepts.assigned members present, accepts.agree members present⟩, rfl⟩
  have held : ∀ n, (placed (clusters.map .cluster) parent.graph.nodeCount).node? n =
      owner (clusters.map .cluster) n :=
    node?_placed places.placeable.once places.placeable.known
  have size : (clusters.map Origin.cluster).length =
      (clusters.map (parent.slotsOf count p)).length := by simp
  have edges := foldlM_addSpanned (parent.slotFactors count) (parent.inherited 0 clusters) [] held
    size lengths
  unfold coarsenByBlock
  rw [if_neg (Nat.ne_of_gt accepts.positive)]
  exact bind_ok.mpr ⟨(), fits, bind_ok.mpr ⟨_, inside, bind_ok.mpr ⟨_, start,
    bind_ok.mpr ⟨_, clusterNodes, bind_ok.mpr ⟨_, edges, rfl⟩⟩⟩⟩⟩

theorem coarsenByBlock_ok {child : Level α} {count : Nat} {p : Partition}
    (wellFormed : parent.graph.WellFormed) :
    parent.coarsenByBlock clusters count p = .ok child ↔
      parent.AcceptsByBlock clusters count p ∧ child = parent.coarsenedByBlock clusters count p :=
  ok_iff (accepts_of_coarsenByBlock wellFormed)
    fun accepts => accepts.coarsenByBlock_eq wellFormed

end Multilevel.Level
