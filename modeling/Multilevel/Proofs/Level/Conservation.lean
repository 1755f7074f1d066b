import Multilevel.Proofs.Exact
import Multilevel.Proofs.Level.Roots

/-!
# Weight through a hierarchy

Where no weights are split by block, a node weighs what the nodes of the root that it stands for
weigh together, and a virtual node weighs nothing. Virtual nodes stay out of all clusters, so none
of them stands in for the weight of a node of the root.
-/
namespace Multilevel

variable {α : Type}

theorem Hypergraph.totalNodeWeight_eq [Zero α] [Add α] {g : Hypergraph α}
    (wellFormed : g.WellFormed) : g.totalNodeWeight =
      .ok (Weight.sumOf g.nodeDim ((List.range g.nodeCount).map g.weightsAt)) := by
  rw [totalNodeWeight, weights_eq_weightsAt]
  refine Weight.sum_ok (List.forall_mem_map.mpr fun n known => ?_)
  exact length_weightsAt wellFormed (List.mem_range.mp known)

/-- Some nodes have weights, and these have a sum. -/
def Hypergraph.WeighTogether [Zero α] [Add α] (g : Hypergraph α) (nodes : List NodeId)
    (total : List α) : Prop :=
  ∃ weights, nodes.mapM g.nodeWeights = .ok weights ∧ Weight.sum g.nodeDim weights = .ok total

theorem Hypergraph.weighTogether_sumOf [Zero α] [Add α] {g : Hypergraph α} (wellFormed : g.WellFormed)
    {nodes : List NodeId} (known : ∀ n ∈ nodes, n < g.nodeCount) :
    g.WeighTogether nodes (Weight.sumOf g.nodeDim (nodes.map g.weightsAt)) := by
  refine ⟨_, mapM_eq_map fun n listed => nodeWeights_eq (known n listed), ?_⟩
  refine Weight.sum_ok (List.forall_mem_map.mpr fun n listed => ?_)
  exact length_weightsAt wellFormed (known n listed)

namespace Level

def realNodes (l : Level α) : List NodeId :=
  (List.range l.graph.nodeCount).filter fun n => !l.origins[n]?.any Origin.isVirtual

theorem lt_of_mem_realNodes {l : Level α} {n : NodeId} (member : n ∈ l.realNodes) :
    n < l.graph.nodeCount :=
  List.mem_range.mp (List.mem_filter.mp member).1

theorem WellFormed.mem_realNodes {l : Level α} (wellFormed : l.WellFormed) {n : NodeId} :
    n ∈ l.realNodes ↔ l.isVirtual n = .ok false := by
  rw [realNodes, List.mem_filter, List.mem_range, ← wellFormed.origins,
    isVirtual_ok wellFormed.inStep]
  rcases Nat.lt_or_ge n l.origins.length with known | outside
  · simp [known]
  · simp [outside]

theorem top_withFixed (l : Level α) (fixed : Fixed) :
    (l.withFixed fixed).top.graph = l.top.graph := by
  cases l <;> rfl

theorem rootsUnder_withFixed (l : Level α) (fixed : Fixed) :
    (l.withFixed fixed).rootsUnder = l.rootsUnder := by
  cases l <;> rfl

variable [Zero α] [Add α]

/-! ### Weights of children -/

def originWeight (parent : Level α) (o : Origin) : List α :=
  if o.isVirtual then Weight.zeros parent.graph.nodeDim else parent.together o.parents

theorem childWeights_eq (parent : Level α) (clusters : Clustering) (options : CoarsenOptions) :
    parent.childWeights clusters options =
      (parent.childOrigins clusters options).map parent.originWeight := by
  rw [childWeights, childOrigins, Clustering.origins, List.map_append, List.map_map, List.map_map]
  rfl

theorem weightsAt_of_origin {parent : Level α} {clusters : Clustering} {options : CoarsenOptions}
    {n : NodeId} {o : Origin} (read : (parent.childOrigins clusters options)[n]? = some o) :
    (parent.coarsened clusters options).graph.weightsAt n = parent.originWeight o := by
  refine Hypergraph.weightsAt_ofParts ?_
  rw [childWeights_eq, List.getElem?_map, read]
  rfl

/-! ### The invariant -/

/-- What the nodes of the root that a node stands for weigh together. -/
def rootWeight (l : Level α) (n : NodeId) : List α :=
  Weight.sumOf l.top.graph.nodeDim ((l.rootsUnder n).map l.top.graph.weightsAt)

structure Conserves (l : Level α) : Prop where
  dim : l.graph.nodeDim = l.top.graph.nodeDim
  real : ∀ (n : NodeId) (o : Origin), l.origins[n]? = some o → o.isVirtual = false →
    l.graph.weightsAt n = l.rootWeight n
  virtual : ∀ (n : NodeId) (o : Origin), l.origins[n]? = some o → o.isVirtual = true →
    l.graph.weightsAt n = Weight.zeros l.top.graph.nodeDim

theorem conserves_root (exact : ExactAddition α) {t : Tier α} (wellFormed : (root t).WellFormed) :
    (root t).Conserves where
  dim := rfl
  real n o read _ := by
    have known : n < t.graph.nodeCount := wellFormed.lt_nodeCount_iff.mpr ⟨o, read⟩
    exact (exact.zeros_zipWith (Hypergraph.length_weightsAt wellFormed.graph known)).symm
  virtual n o read virtual := by
    have real := (wellFormed.root rfl o (List.mem_of_getElem? read)).2
    rw [real] at virtual
    cases virtual

theorem Conserves.withFixed {l : Level α} (conserves : l.Conserves) (fixed : Fixed) :
    (l.withFixed fixed).Conserves := by
  constructor <;> simp only [rootWeight, graph_withFixed, origins_withFixed, top_withFixed,
    rootsUnder_withFixed]
  · exact conserves.dim
  · exact conserves.real
  · exact conserves.virtual

variable [One α]

theorem Reachable.top {l : Level α} (reached : l.Reachable) : l.top.Reachable := by
  induction l with
  | root => exact reached
  | child t parent ih => exact ih (reached.parent rfl)

theorem Reachable.length_root_weights {l : Level α} (reached : l.Reachable) {n : NodeId}
    (known : n < l.graph.nodeCount) :
    ∀ w ∈ (l.rootsUnder n).map l.top.graph.weightsAt, w.length = l.top.graph.nodeDim := by
  refine List.forall_mem_map.mpr fun r listed => ?_
  exact Hypergraph.length_weightsAt reached.top.wellFormed.graph
    (reached.lt_of_mem_rootsUnder known listed)

theorem Conserves.coarsened (exact : ExactAddition α) {parent : Level α} {clusters : Clustering}
    {options : CoarsenOptions} (conserves : parent.Conserves) (reached : parent.Reachable)
    (accepts : parent.Accepts clusters) : (parent.coarsened clusters options).Conserves where
  dim := conserves.dim
  virtual n o read virtual := by
    rw [origins_coarsened] at read
    rw [weightsAt_of_origin read, originWeight, if_pos virtual]
    exact congrArg Weight.zeros conserves.dim
  real n o read real := by
    rw [origins_coarsened] at read
    obtain ⟨members, -, rfl⟩ := getElem?_childOrigins_cluster read real
    have wellFormed := reached.wellFormed
    have standsFor : StandsFor (parent.childOrigins clusters options) parent :=
      accepts.standsFor wellFormed.graph
    have present := List.mem_of_getElem? read
    have known : ∀ m ∈ members, m < parent.graph.nodeCount := standsFor.known _ present
    -- no member is virtual, so none brings zeros in place of the weights below it
    have each : ∀ m ∈ members, parent.graph.weightsAt m = parent.rootWeight m := by
      intro m listed
      obtain ⟨u, above⟩ := wellFormed.lt_nodeCount_iff.mp (known m listed)
      exact conserves.real m u above (standsFor.real _ present rfl m listed u above)
    have under : (parent.coarsened clusters options).rootsUnder n =
        members.flatMap parent.rootsUnder := by
      change (parentsAt (parent.coarsened clusters options).origins n).flatMap parent.rootsUnder = _
      rw [origins_coarsened, parentsAt, read]
      rfl
    calc (parent.coarsened clusters options).graph.weightsAt n
        = Weight.sumOf parent.graph.nodeDim (members.map parent.graph.weightsAt) :=
          weightsAt_of_origin read
      _ = Weight.sumOf parent.top.graph.nodeDim (members.map parent.rootWeight) := by
          rw [conserves.dim, List.map_congr_left each]
      _ = Weight.sumOf parent.top.graph.nodeDim
            (members.flatMap fun m => (parent.rootsUnder m).map parent.top.graph.weightsAt) :=
          (exact.sumOf_flatMap fun m listed =>
            reached.length_root_weights (known m listed)).symm
      _ = (parent.coarsened clusters options).rootWeight n := by
          rw [rootWeight, under, List.map_flatMap]
          rfl

/-! ### Hierarchies without split weights -/

/-- Levels with nothing but `coarsen` between them and their root. -/
inductive Unsplit : Level α → Prop
  | root {l : Level α} (reached : l.Reachable) (alone : l.parent? = none) : Unsplit l
  | setFixed {l next : Level α} {fixed : Fixed} (unsplit : Unsplit l)
      (made : l.setFixed fixed = .ok next) : Unsplit next
  | coarsen {l next : Level α} {clusters : Clustering} {options : CoarsenOptions}
      (unsplit : Unsplit l) (made : l.coarsen clusters options = .ok next) : Unsplit next

theorem Unsplit.reachable {l : Level α} (unsplit : l.Unsplit) : l.Reachable := by
  induction unsplit with
  | root reached => exact reached
  | setFixed _ made ih => exact ih.setFixed made
  | coarsen _ made ih => exact ih.coarsen made

theorem Unsplit.conserves (exact : ExactAddition α) {l : Level α} (unsplit : l.Unsplit) :
    l.Conserves := by
  induction unsplit with
  | @root l reached alone =>
    cases l with
    | root => exact conserves_root exact reached.wellFormed
    | child => cases alone
  | setFixed _ made ih =>
    obtain ⟨-, same⟩ := setFixed_ok.mp made
    exact same ▸ ih.withFixed _
  | coarsen unsplit made ih =>
    have reached := unsplit.reachable
    obtain ⟨accepts, same⟩ := (coarsen_ok reached.wellFormed.graph).mp made
    exact same ▸ ih.coarsened exact reached accepts

/-! ### Totals -/

/-- A level weighs what its real nodes weigh, since virtual ones have no weight. -/
theorem Conserves.totalNodeWeight_eq (exact : ExactAddition α) {l : Level α}
    (conserves : l.Conserves) (reached : l.Reachable) :
    l.graph.totalNodeWeight = .ok (Weight.sumOf l.top.graph.nodeDim
      ((l.realNodes.flatMap l.rootsUnder).map l.top.graph.weightsAt)) := by
  have wellFormed := reached.wellFormed
  have lengths : ∀ n ∈ List.range l.graph.nodeCount,
      (l.graph.weightsAt n).length = l.top.graph.nodeDim := by
    intro n bound
    rw [← conserves.dim]
    exact Hypergraph.length_weightsAt wellFormed.graph (List.mem_range.mp bound)
  have none : ∀ n ∈ List.range l.graph.nodeCount, (!l.origins[n]?.any Origin.isVirtual) = false →
      l.graph.weightsAt n = Weight.zeros l.top.graph.nodeDim := by
    intro n bound virtual
    obtain ⟨o, found⟩ := wellFormed.lt_nodeCount_iff.mp (List.mem_range.mp bound)
    exact conserves.virtual n o found (by simpa [found] using virtual)
  have own : ∀ n ∈ l.realNodes, l.graph.weightsAt n = l.rootWeight n := by
    intro n listed
    obtain ⟨o, found⟩ := wellFormed.lt_nodeCount_iff.mp (lt_of_mem_realNodes listed)
    exact conserves.real n o found (by simpa [found] using (List.mem_filter.mp listed).2)
  rw [Hypergraph.totalNodeWeight_eq wellFormed.graph, conserves.dim]
  refine congrArg Except.ok ?_
  calc Weight.sumOf l.top.graph.nodeDim ((List.range l.graph.nodeCount).map l.graph.weightsAt)
      = Weight.sumOf l.top.graph.nodeDim (l.realNodes.map l.graph.weightsAt) :=
        exact.sumOf_filter_of_zeros lengths none
    _ = Weight.sumOf l.top.graph.nodeDim (l.realNodes.map l.rootWeight) := by
        rw [List.map_congr_left own]
    _ = Weight.sumOf l.top.graph.nodeDim
          ((l.realNodes.flatMap l.rootsUnder).map l.top.graph.weightsAt) := by
        rw [List.map_flatMap]
        exact (exact.sumOf_flatMap fun n listed =>
          reached.length_root_weights (lt_of_mem_realNodes listed)).symm

/-- However deep a hierarchy is, no weight is lost or counted twice on the way to a real node, and
virtual nodes bring none. -/
theorem Unsplit.weights_conserved (exact : ExactAddition α) {l : Level α} (unsplit : l.Unsplit) :
    (∀ n, l.isVirtual n = .ok false → ∃ roots total, l.rootsOf n = .ok roots ∧
      l.top.graph.WeighTogether roots total ∧ l.graph.nodeWeights n = .ok total) ∧
    (∀ n, l.isVirtual n = .ok true →
      l.graph.nodeWeights n = .ok (Weight.zeros l.top.graph.nodeDim)) ∧
    ∃ (covered : List NodeId) (total : List α), covered.Nodup ∧
      (∀ r, r ∈ covered ↔ ∃ n roots, l.isVirtual n = .ok false ∧ l.rootsOf n = .ok roots ∧
        r ∈ roots) ∧
      l.top.graph.WeighTogether covered total ∧ l.graph.totalNodeWeight = .ok total := by
  have reached := unsplit.reachable
  have wellFormed := reached.wellFormed
  have top := reached.top.wellFormed.graph
  have conserves := unsplit.conserves exact
  refine ⟨?_, ?_, ?_⟩
  · intro n real
    obtain ⟨o, found, real⟩ := (isVirtual_ok wellFormed.inStep).mp real
    have bound := wellFormed.lt_nodeCount_iff.mpr ⟨o, found⟩
    have inside : ∀ r ∈ l.rootsUnder n, r < l.top.graph.nodeCount :=
      fun r listed => reached.lt_of_mem_rootsUnder bound listed
    refine ⟨_, _, reached.rootsOf_eq bound, Hypergraph.weighTogether_sumOf top inside, ?_⟩
    rw [Hypergraph.nodeWeights_eq bound, conserves.real n o found real]
    rfl
  · intro n virtual
    obtain ⟨o, found, virtual⟩ := (isVirtual_ok wellFormed.inStep).mp virtual
    have bound := wellFormed.lt_nodeCount_iff.mpr ⟨o, found⟩
    rw [Hypergraph.nodeWeights_eq bound, conserves.virtual n o found virtual]
  · have bound : ∀ n ∈ l.realNodes, n < l.graph.nodeCount := fun n => lt_of_mem_realNodes
    have inside : ∀ r ∈ l.realNodes.flatMap l.rootsUnder, r < l.top.graph.nodeCount := by
      intro r listed
      obtain ⟨n, present, under⟩ := List.mem_flatMap.mp listed
      exact reached.lt_of_mem_rootsUnder (bound n present) under
    refine ⟨_, _, ?_, ?_, Hypergraph.weighTogether_sumOf top inside,
      conserves.totalNodeWeight_eq exact reached⟩
    · exact reached.nodup_flatMap_rootsUnder (List.nodup_range.filter _) bound
        fun n listed => reached.nodup_rootsUnder (bound n listed)
    · intro r
      rw [List.mem_flatMap]
      constructor
      · intro ⟨n, present, under⟩
        have real := wellFormed.mem_realNodes.mp present
        exact ⟨n, _, real, reached.rootsOf_eq (bound n present), under⟩
      · intro ⟨n, roots, real, read, listed⟩
        obtain ⟨-, same⟩ := reached.rootsOf_ok.mp read
        exact ⟨n, wellFormed.mem_realNodes.mpr real, same ▸ listed⟩

/-- A row whose last two nodes are in no cluster. The third one is kept twice as a virtual node, and
what it weighs is not in the total. -/
theorem weights_conserved_line : ∃ middle lowest : Level Rat,
    (ofGraph (.line Rat)).coarsen [[1, 0]] ⟨true⟩ = .ok middle ∧
    middle.coarsen [[0]] ⟨true⟩ = .ok lowest ∧
    (∃ total, (Hypergraph.line Rat).WeighTogether [1, 0] total ∧
      lowest.graph.nodeWeights 0 = .ok total) ∧
    lowest.graph.nodeWeights 1 = .ok [0] ∧
    ∃ (covered : List NodeId) (total : List Rat), 0 ∈ covered ∧ 2 ∉ covered ∧
      (Hypergraph.line Rat).WeighTogether covered total ∧ lowest.graph.totalNodeWeight = .ok total := by
  have start : (ofGraph (.line Rat)).Reachable := .ofGraph Hypergraph.reachable_line
  have top : (ofGraph (.line Rat)).Unsplit := .root start rfl
  obtain ⟨middle, first⟩ := ok_of_isOk
    (x := (ofGraph (.line Rat)).coarsen [[1, 0]] ⟨true⟩) (by decide)
  have above := top.coarsen first
  obtain ⟨-, rfl⟩ := (coarsen_ok start.wellFormed.graph).mp first
  obtain ⟨lowest, second⟩ := ok_of_isOk
    (x := ((ofGraph (.line Rat)).coarsened [[1, 0]] ⟨true⟩).coarsen [[0]] ⟨true⟩)
    (by decide +kernel)
  have unsplit := above.coarsen second
  obtain ⟨-, rfl⟩ := (coarsen_ok above.reachable.wellFormed.graph).mp second
  have pair : (((ofGraph (.line Rat)).coarsened [[1, 0]] ⟨true⟩).coarsened
      [[0]] ⟨true⟩).rootsOf 0 = .ok [1, 0] := by decide +kernel
  have real : (((ofGraph (.line Rat)).coarsened [[1, 0]] ⟨true⟩).coarsened
      [[0]] ⟨true⟩).isVirtual 0 = .ok false := by decide +kernel
  have virtual : (((ofGraph (.line Rat)).coarsened [[1, 0]] ⟨true⟩).coarsened
      [[0]] ⟨true⟩).isVirtual 1 = .ok true := by decide +kernel
  obtain ⟨each, zero, covered, whole, -, listed, sum, weighs⟩ :=
    Unsplit.weights_conserved exactAddition_rat unsplit
  obtain ⟨roots, total, read, part, weight⟩ := each 0 real
  obtain rfl := Except.ok.inj (pair.symm.trans read)
  refine ⟨_, _, first, second, ⟨total, part, weight⟩, zero 1 virtual, covered, whole, ?_, ?_,
    sum, weighs⟩
  · exact (listed 0).mpr ⟨0, _, real, pair, by simp⟩
  · intro member
    obtain ⟨n, others, own, under, present⟩ := (listed 2).mp member
    obtain ⟨known, -⟩ := unsplit.reachable.rootsOf_ok.mp under
    match n, known with
    | 0, _ =>
      obtain rfl := Except.ok.inj (pair.symm.trans under)
      simp at present
    | 1, _ =>
      cases own.symm.trans virtual

end Level
end Multilevel
