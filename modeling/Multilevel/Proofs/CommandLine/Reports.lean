import Multilevel.CommandLine.Run
import Multilevel.Proofs.Hypergraph.Balance

namespace Multilevel.CommandLine

/-- Reports that say the same of the cut. -/
structure Metrics.SameCut {α : Type} (m n : Metrics α) : Prop where
  cut : m.cut = n.cut
  cutCost : m.cutCost = n.cutCost
  blockCuts : m.blockCuts = n.blockCuts

variable {α : Type} [Zero α] [Neg α] [Add α] [Sub α] [Mul α] [Div α] [NatCast α] [LE α]
  [DecidableLE α] [Gauge α] {g k : Hypergraph α} {p q : Partition}

def cutWeight (g : Hypergraph α) (p : Partition) : List α :=
  Weight.sumOf g.edgeDim ((g.cutEdges p).map Edge.weights)

def sizes (g : Hypergraph α) (p : Partition) : List (List α) :=
  (List.range p.blockCount).map (g.weightIn p)

/-- The report on a partition that assigns every node. -/
def measured (g : Hypergraph α) (p : Partition) : Metrics α where
  cut := cutWeight g p
  cutCost := total (List.zipWith (· * ·) (cutWeight g p) g.factors.edge)
  blockWeights := sizes g p
  blockCuts := (List.range p.blockCount).map (Hypergraph.touching g.edgeDim (g.cutEdges p))
  blockImbalance :=
    let columns := (List.range g.nodeDim).map fun d => (sizes g p).filterMap (·[d]?)
    (sizes g p).map fun size => List.zipWith Sample.imbalance size columns

theorem metrics_ok (wellFormed : g.WellFormed) (length : p.length = g.nodeCount)
    (assigned : none ∉ p) : metrics g p = .ok (measured g p) := by
  have weights := Hypergraph.blockWeights_ok wellFormed length assigned
  have cutDim : (cutWeight g p).length = g.factors.edge.length :=
    Weight.length_sumOf (List.forall_mem_map.mpr (Hypergraph.length_weights_cutEdges wellFormed))
  exact bind_ok.mpr ⟨_, Hypergraph.cut_ok wellFormed length,
    bind_ok.mpr ⟨_, Weight.scalar_ok cutDim,
    bind_ok.mpr ⟨_, weights,
    bind_ok.mpr ⟨_, Hypergraph.blockCuts_ok wellFormed length,
    bind_ok.mpr ⟨_, bind_ok.mpr ⟨_, weights, rfl⟩, rfl⟩⟩⟩⟩⟩

section
variable (factors : k.factors = g.factors) (cut : k.cutEdges p = g.cutEdges q)
  (blocks : p.blockCount = q.blockCount)
include factors cut blocks

theorem sameCut_measured : (measured k p).SameCut (measured g q) := by
  have dim : k.edgeDim = g.edgeDim := congrArg (·.edge.length) factors
  have weight : cutWeight k p = cutWeight g q := by rw [cutWeight, cutWeight, dim, cut]
  refine ⟨weight, ?_, ?_⟩
  · simp only [measured, weight, factors]
  · simp only [measured, blocks, dim, cut]

theorem measured_congr (weights : ∀ b, k.weightIn p b = g.weightIn q b) :
    measured k p = measured g q := by
  obtain ⟨weight, cost, each⟩ := sameCut_measured factors cut blocks
  have dim : k.nodeDim = g.nodeDim := congrArg (·.node.length) factors
  have same : sizes k p = sizes g q := by rw [sizes, sizes, blocks, funext weights]
  have balance : (measured k p).blockImbalance = (measured g q).blockImbalance := by
    simp only [measured, same, dim]
  simp only [measured, Metrics.mk.injEq] at weight cost each balance ⊢
  exact ⟨weight, cost, same, each, balance⟩

end

end Multilevel.CommandLine
