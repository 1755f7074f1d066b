import Mathlib.Algebra.BigOperators.Ring.Finset
import Multilevel.Proofs.CommandLine.Reports
import Multilevel.Proofs.Hypergraph.Metrics
import Multilevel.Proofs.Hypergraph.Queries
import Multilevel.Proofs.Sample

/-!
# Totals

Over rational numbers the cost of a sum of vectors is the sum of their costs (`cost_sumOf`), so it
does not matter whether edges are summed up and then priced or the other way round. An overview of a
graph and a report on a partition therefore agree with what the graph says of single nodes and
edges.
-/
namespace Multilevel

/-! ### Columns and costs -/

namespace Weight

def cost (factors weights : List Rat) : Rat := (List.zipWith (· * ·) weights factors).sum

theorem scalar_eq_cost {weights factors : List Rat} (lengths : weights.length = factors.length) :
    scalar weights factors = .ok (cost factors weights) := by
  rw [scalar_ok lengths, total_eq_sum, cost]

theorem sum_zipWith {u v : List Rat} (same : u.length = v.length) :
    (List.zipWith (· + ·) u v).sum = u.sum + v.sum := by
  rw [← List.sum_append, ← total_eq_sum, ← total_eq_sum]
  exact exactAddition_rat.foldl_zipWith same 0

variable {dim : Nat} {vectors : List (List Rat)}

theorem cost_zeros (factors : List Rat) : cost factors (zeros dim) = 0 := by
  refine List.sum_eq_zero fun product member => ?_
  obtain ⟨i, read⟩ := List.mem_iff_getElem?.mp member
  obtain ⟨weight, factor, zero, -, rfl⟩ := List.getElem?_zipWith_eq_some.mp read
  rw [List.eq_of_mem_replicate (List.mem_of_getElem? zero), zero_mul]

theorem cost_sumOf {factors : List Rat} (lengths : ∀ v ∈ vectors, v.length = dim) :
    cost factors (sumOf dim vectors) = (vectors.map (cost factors)).sum := by
  induction vectors with
  | nil => exact cost_zeros factors
  | cons v vectors ih =>
    obtain ⟨first, others⟩ := List.forall_mem_cons.mp lengths
    have parts : (List.zipWith (· * ·) v factors).length =
        (List.zipWith (· * ·) (sumOf dim vectors) factors).length := by
      rw [List.length_zipWith, List.length_zipWith, first, length_sumOf others]
    rw [exactAddition_rat.sumOf_cons first others, cost, exactArithmetic_rat.zipWith_mul,
      sum_zipWith parts, List.map_cons, List.sum_cons, ← ih others]
    rfl

theorem sumOf_eq_columns (lengths : ∀ v ∈ vectors, v.length = dim) :
    sumOf dim vectors = (List.range dim).map fun d => (vectors.filterMap (·[d]?)).sum := by
  induction vectors with
  | nil =>
    have none : (List.range dim).map (fun d => (([] : List (List Rat)).filterMap (·[d]?)).sum) =
        List.replicate (List.range dim).length 0 := List.map_const' ..
    rw [none, List.length_range]
    rfl
  | cons v vectors ih =>
    obtain ⟨first, others⟩ := List.forall_mem_cons.mp lengths
    rw [exactAddition_rat.sumOf_cons first others, ih others]
    refine List.ext_getElem (by simp [first]) fun d _ below => ?_
    have inside : d < v.length := by simpa [first] using below
    have read : v[d]? = some v[d] := List.getElem?_eq_getElem inside
    simp [read]

end Weight

theorem Overview.mean_spread (histograms : Bool) (values : List Rat) :
    (Overview.spread histograms values).mean = Sample.mean values := by
  cases histograms <;> rfl

/-! ### Nodes and edges -/

namespace Hypergraph

variable {g : Hypergraph Rat} {p : Partition}

theorem WellFormed.mapM_costOfEdge (wellFormed : g.WellFormed) (keep : EdgeId → Bool)
    (kept : Edge Rat → Bool) (same : ∀ e edge, g.edges[e]? = some edge → keep e = kept edge) :
    ((List.range g.edgeCount).filter keep).mapM g.costOfEdge =
      .ok ((g.edges.filter kept).map fun e => Weight.cost g.factors.edge e.weights) := by
  refine mapM_range keep kept fun e edge read => ⟨same e edge read, ?_⟩
  have weights := (wellFormed.edges edge (List.mem_of_getElem? read)).weights
  exact bind_ok.mpr ⟨edge.weights, map_ok.mpr ⟨edge, edge_ok.mpr read, rfl⟩,
    Weight.scalar_eq_cost weights⟩

theorem WellFormed.costs_ok (wellFormed : g.WellFormed) :
    (List.range g.edgeCount).mapM g.costOfEdge =
      .ok (g.edges.map fun e => Weight.cost g.factors.edge e.weights) := by
  have all := wellFormed.mapM_costOfEdge (fun _ => true) (fun _ => true) fun _ _ _ => rfl
  rwa [List.filter_true, List.filter_true] at all

theorem WellFormed.edgeCost_sumOf (wellFormed : g.WellFormed) {edges : List (Edge Rat)}
    (kept : edges ⊆ g.edges) : g.edgeCost (Weight.sumOf g.edgeDim (edges.map Edge.weights)) =
      .ok (edges.map fun e => Weight.cost g.factors.edge e.weights).sum := by
  have lengths : ∀ w ∈ edges.map Edge.weights, w.length = g.edgeDim :=
    List.forall_mem_map.mpr fun e member => (wellFormed.edges e (kept member)).weights
  have length : (Weight.sumOf g.edgeDim (edges.map Edge.weights)).length = g.factors.edge.length :=
    Weight.length_sumOf lengths
  rw [edgeCost, Weight.scalar_eq_cost length, Weight.cost_sumOf lengths, List.map_map]
  rfl

/-- Edges are counted at their nodes as often as they have members. -/
theorem WellFormed.sum_incident (wellFormed : g.WellFormed) :
    ((List.range g.nodeCount).map fun n => (edgesAt g.edges n).length).sum =
      (g.edges.map fun e => e.members.length).sum := by
  have spanning (n : NodeId) : (edgesAt g.edges n).length = g.edges.countP (n ∈ ·.members) := by
    rw [(mapM_ok.mp (mapM_edge_edgesAt g n)).length_eq, List.countP_eq_length_filter]
  have members : ∀ e ∈ g.edges,
      (List.range g.nodeCount).countP (· ∈ e.members) = e.members.length :=
    fun e member => (wellFormed.edges e member).countP_members
  calc ((List.range g.nodeCount).map fun n => (edgesAt g.edges n).length).sum
      = ((List.range g.nodeCount).map fun n => g.edges.countP (n ∈ ·.members)).sum := by
        simp only [spanning]
    _ = (g.edges.map fun e => (List.range g.nodeCount).countP (· ∈ e.members)).sum :=
        sum_countP _ g.edges fun n e => n ∈ e.members
    _ = (g.edges.map fun e => e.members.length).sum :=
        congrArg List.sum (List.map_congr_left members)

/-! ### Overviews -/

/-- What an overview says of all nodes or edges is what the graph says of each of them, summed up,
and a mean is a sum divided by the count. -/
structure Coherent (g : Hypergraph Rat) (o : Overview Rat) : Prop where
  nodeCount : o.nodeCount = g.nodeCount
  edgeCount : o.edgeCount = g.edgeCount
  total : g.totalNodeWeight = .ok o.totalNodeWeight
  cost : ∃ costs, (List.range g.edgeCount).mapM g.costOfEdge = .ok costs ∧
    o.totalEdgeCost = costs.sum
  costMean : o.totalEdgeCost = o.edgeCosts.mean * (o.edgeCount : Rat)
  dimensions : o.totalNodeWeight.length = g.nodeDim
  weightMean : o.nodeWeights.map (fun s => s.mean * (o.nodeCount : Rat)) = o.totalNodeWeight
  degreeMean : ∃ edges, (List.range g.nodeCount).mapM g.incident = .ok edges ∧
    o.edgeDegrees.mean * (o.edgeCount : Rat) = ((edges.map List.length).sum : Nat)

theorem WellFormed.weightMeans (wellFormed : g.WellFormed) :
    ((List.range g.nodeDim).map fun d => Sample.mean (g.nodes.filterMap (·.weights[d]?)) *
      (g.nodeCount : Rat)) = Weight.sumOf g.nodeDim (g.nodes.map Node.weights) := by
  rw [Weight.sumOf_eq_columns (List.forall_mem_map.mpr wellFormed.nodeWeights)]
  refine List.map_congr_left fun d member => ?_
  have below := List.mem_range.mp member
  -- no node is left out of the column
  have present : ∀ node ∈ g.nodes, (node.weights[d]?).isSome := fun node listed => by
    rw [List.getElem?_eq_getElem (wellFormed.nodeWeights node listed ▸ below)]
    rfl
  have count : (g.nodes.filterMap (·.weights[d]?)).length = g.nodeCount :=
    List.filterMap_length_eq_length.mpr present
  rw [← count, Sample.mean_mul_length, List.filterMap_map]
  rfl

theorem WellFormed.degreeMean (wellFormed : g.WellFormed) :
    Sample.mean (g.edges.map fun e => (e.members.length : Rat)) * (g.edgeCount : Rat) =
      (((List.range g.nodeCount).map fun n => (edgesAt g.edges n).length).sum : Nat) := by
  have count : (g.edges.map fun e => (e.members.length : Rat)).length = g.edgeCount :=
    List.length_map _
  rw [wellFormed.sum_incident, Nat.cast_list_sum, ← count, Sample.mean_mul_length, List.map_map]
  rfl

theorem WellFormed.exists_coherent (wellFormed : g.WellFormed) (histograms : Bool) :
    ∃ o, Overview.of g histograms = .ok o ∧ g.Coherent o := by
  refine ⟨_, bind_ok.mpr ⟨_, wellFormed.costs_ok, bind_ok.mpr ⟨_, wellFormed.totalEdgeWeight_ok,
    bind_ok.mpr ⟨_, wellFormed.totalNodeWeight_ok,
    bind_ok.mpr ⟨_, wellFormed.edgeCost_sumOf (List.Subset.refl _), rfl⟩⟩⟩⟩, ?_⟩
  constructor
  case nodeCount => rfl
  case edgeCount => rfl
  case total => exact wellFormed.totalNodeWeight_ok
  case cost => exact ⟨_, wellFormed.costs_ok, rfl⟩
  case costMean =>
    have count : (g.edges.map fun e => Weight.cost g.factors.edge e.weights).length = g.edgeCount :=
      List.length_map _
    rw [Overview.mean_spread, ← count, Sample.mean_mul_length]
  case dimensions => exact Weight.length_sumOf (List.forall_mem_map.mpr wellFormed.nodeWeights)
  case weightMean =>
    rw [← wellFormed.weightMeans, List.map_map]
    exact List.map_congr_left fun d _ => congrArg (· * _) (Overview.mean_spread histograms _)
  case degreeMean =>
    refine ⟨_, mapM_eq_map fun n member => wellFormed.incident_eq (List.mem_range.mp member), ?_⟩
    rw [Overview.mean_spread, wellFormed.degreeMean, List.map_map]
    rfl

/-! ### Reports -/

theorem cut_of_metrics {m : CommandLine.Metrics Rat} (reported : CommandLine.metrics g p = .ok m) :
    g.cut p = .ok m.cut ∧ g.edgeCost m.cut = .ok m.cutCost := by
  obtain ⟨cut, summed, rest⟩ := bind_ok.mp reported
  obtain ⟨cost, priced, rest⟩ := bind_ok.mp rest
  obtain ⟨weights, -, rest⟩ := bind_ok.mp rest
  obtain ⟨cuts, -, rest⟩ := bind_ok.mp rest
  obtain ⟨imbalance, -, rest⟩ := bind_ok.mp rest
  obtain rfl := pure_ok.mp rest
  exact ⟨summed, priced⟩

/-- The cut that is reported costs what the edges cost that are cut, looked up one by one. -/
theorem WellFormed.cutCost_eq (wellFormed : g.WellFormed) {m : CommandLine.Metrics Rat}
    (reported : CommandLine.metrics g p = .ok m) :
    ∃ costs, ((List.range g.edgeCount).filter fun e => g.isCutEdge e p = .ok true).mapM
      g.costOfEdge = .ok costs ∧ m.cutCost = costs.sum := by
  obtain ⟨summed, priced⟩ := cut_of_metrics reported
  obtain ⟨_, fits, -⟩ := bind_ok.mp summed
  have length := checkPartition_ok.mp fits
  have cut : m.cut = Weight.sumOf g.edgeDim ((g.edgesCut p).map Edge.weights) :=
    Except.ok.inj (summed.symm.trans (wellFormed.cut_eq length))
  have sum : g.edgeCost (Weight.sumOf g.edgeDim ((g.edgesCut p).map Edge.weights)) = .ok _ :=
    wellFormed.edgeCost_sumOf (List.filter_subset_self _)
  rw [cut] at priced
  refine ⟨_, wellFormed.mapM_costOfEdge _ (·.Cut p) fun e edge read => ?_,
    Except.ok.inj (priced.symm.trans sum)⟩
  rw [isCutEdge_eq length read]
  simp

/-- Over exact numbers, an overview and a report on a partition agree with what the graph says of
single nodes and edges. -/
theorem Reachable.totals_agree (reached : g.Reachable) :
    (∀ histograms, ∃ o, Overview.of g histograms = .ok o ∧ g.Coherent o) ∧
    (∀ p m, CommandLine.metrics g p = .ok m →
      ∃ costs, ((List.range g.edgeCount).filter fun e => g.isCutEdge e p = .ok true).mapM
        g.costOfEdge = .ok costs ∧ m.cutCost = costs.sum) ∧
    ∀ p : Partition, p.length = g.nodeCount → none ∉ p → ∃ m, CommandLine.metrics g p = .ok m :=
  ⟨reached.wellFormed.exists_coherent, fun _ _ => reached.wellFormed.cutCost_eq,
    fun _ length assigned => ⟨_, CommandLine.metrics_ok reached.wellFormed length assigned⟩⟩

/-- Two blocks, and two of the three edges between them. -/
theorem totals_agree_kite : ∃ o m, Overview.of kite true = .ok o ∧ kite.Coherent o ∧
    CommandLine.metrics kite [some 0, some 0, some 1, some 1] = .ok m ∧
    o.totalEdgeCost = 31 / 30 ∧ m.cutCost = 7 / 10 := by
  obtain ⟨overviews, reports, evaluated⟩ := Reachable.totals_agree reachable_kite
  obtain ⟨o, made, coherent⟩ := overviews true
  obtain ⟨m, reported⟩ := evaluated [some 0, some 0, some 1, some 1] rfl (by decide)
  obtain ⟨costs, looked, whole⟩ := coherent.cost
  obtain ⟨cut, found, sum⟩ := reports _ m reported
  obtain rfl : [1 / 2, 1 / 3, 1 / 5] = costs := Except.ok.inj (Eq.trans (by decide +kernel) looked)
  obtain rfl : [1 / 2, 1 / 5] = cut := Except.ok.inj (Eq.trans (by decide +kernel) found)
  exact ⟨o, m, made, coherent, reported, whole.trans (by decide +kernel),
    sum.trans (by decide +kernel)⟩

end Hypergraph
end Multilevel
