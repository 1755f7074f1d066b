import Multilevel.Proofs.Exact
import Multilevel.Proofs.Hypergraph.Construction
import Multilevel.Proofs.Hypergraph.Cut

namespace Multilevel.Hypergraph

variable {α : Type} [Zero α] [Add α] {g k : Hypergraph α} {p : Partition}

def addToBlock (g : Hypergraph α) (p : Partition) (sizes : List (List α)) (n : NodeId) :
    Except Fault (List (List α)) :=
  match p.block? n with
  | none => .error (.unassignedNode n)
  | some b => addAt sizes b (g.weightsAt n)

theorem blockWeights_eq (length : p.length = g.nodeCount) : g.blockWeights p =
    (List.range g.nodeCount).foldlM (g.addToBlock p)
      (List.replicate p.blockCount (Weight.zeros g.nodeDim)) := by
  let step (sizes : List (List α)) (row : (List α × Option BlockId) × NodeId) :
      Except Fault (List (List α)) :=
    match row.1.2 with
    | none => .error (.unassignedNode row.2)
    | some b => addAt sizes b row.1.1
  have rows : (g.nodes.zip p).zipIdx.map (Prod.map (Prod.map Node.weights id) id) =
      (List.range g.nodeCount).map fun n => ((g.weightsAt n, p.block? n), n) := by
    refine List.ext_getElem (by simp [length, nodeCount]) fun n _ known => ?_
    rw [List.length_map, List.length_range, nodeCount] at known
    have read : g.nodes[n]? = some g.nodes[n] := List.getElem?_eq_getElem known
    have assigned : n < p.length := length.symm ▸ known
    have held := Partition.getElem?_eq_block? assigned
    rw [List.getElem?_eq_getElem assigned] at held
    have weights : g.weightsAt n = g.nodes[n].weights := by rw [weightsAt, read]; rfl
    simp [weights, Option.some.inj held]
  have loop : (List.range g.nodeCount).foldlM
      (fun sizes n => step sizes ((g.weightsAt n, p.block? n), n))
      (List.replicate p.blockCount (Weight.zeros g.nodeDim)) = _ := List.foldlM_map.symm
  rw [blockWeights, checkPartition_ok (u := ()).mpr length]
  refine Eq.trans ?_ loop.symm
  rw [← rows, List.foldlM_map]
  rfl

theorem blockWeights_congr (factor : k.factors.node = g.factors.node)
    (weights : k.nodes.map Node.weights = g.nodes.map Node.weights)
    (length : p.length = g.nodeCount) : k.blockWeights p = g.blockWeights p := by
  have count : k.nodeCount = g.nodeCount := by
    rw [nodeCount, ← List.length_map Node.weights, weights, List.length_map, nodeCount]
  have rounds : k.addToBlock p = g.addToBlock p := by
    funext sizes n
    rw [addToBlock, addToBlock, weightsAt, weightsAt, ← List.getElem?_map, ← List.getElem?_map,
      weights]
  rw [blockWeights_eq length, blockWeights_eq (length.trans count.symm), count, rounds, nodeDim,
    nodeDim, factor]

def nodesIn (g : Hypergraph α) (p : Partition) (b : BlockId) : List NodeId :=
  (List.range g.nodeCount).filter (p.block? · = some b)

def weightIn (g : Hypergraph α) (p : Partition) (b : BlockId) : List α :=
  Weight.sumOf g.nodeDim ((g.nodesIn p b).map g.weightsAt)

/-- Nodes that all have a block leave in each block the sum of their weights. -/
theorem foldlM_addToBlock (wellFormed : g.WellFormed) {nodes : List NodeId}
    (known : ∀ n ∈ nodes, n < g.nodeCount) (held : ∀ n ∈ nodes, p.block? n ≠ none) :
    nodes.foldlM (g.addToBlock p) (List.replicate p.blockCount (Weight.zeros g.nodeDim)) =
      .ok ((List.range p.blockCount).map fun b =>
        Weight.sumOf g.nodeDim ((nodes.filter (p.block? · = some b)).map g.weightsAt)) := by
  have start : List.replicate p.blockCount (Weight.zeros g.nodeDim : List α) =
      (List.range p.blockCount).map fun _ => Weight.zeros g.nodeDim := by
    rw [List.map_const', List.length_range]
  have loop : nodes.foldlM (g.addToBlock p)
      ((List.range p.blockCount).map fun _ => Weight.zeros g.nodeDim) =
        (nodes.map fun n => ((p.block? n).getD 0, g.weightsAt n)).foldlM
          (fun sizes e => addAt sizes e.1 e.2)
          ((List.range p.blockCount).map fun _ => Weight.zeros g.nodeDim) := by
    rw [List.foldlM_map]
    refine foldlM_congr fun sizes n member => ?_
    obtain ⟨b, read⟩ := Option.ne_none_iff_exists'.mp (held n member)
    rw [addToBlock, read]
    rfl
  rw [start, loop, foldlM_addAt fun _ => Weight.length_zeros _]
  · refine congrArg Except.ok (List.map_congr_left fun b _ => ?_)
    rw [Weight.sumOf, List.filter_map, List.map_map]
    refine congrArg (Weight.addAll _ <| List.map _ ·) (List.filter_congr fun n member => ?_)
    obtain ⟨c, read⟩ := Option.ne_none_iff_exists'.mp (held n member)
    simp [read]
  · exact List.forall_mem_map.mpr fun n member => length_weightsAt wellFormed (known n member)

theorem blockWeights_ok (wellFormed : g.WellFormed) (length : p.length = g.nodeCount)
    (assigned : none ∉ p) :
    g.blockWeights p = .ok ((List.range p.blockCount).map (g.weightIn p)) := by
  have held (n : NodeId) (known : n ∈ List.range g.nodeCount) : p.block? n ≠ none :=
    Option.ne_none_iff_exists'.mpr
      (Partition.exists_block assigned (length ▸ List.mem_range.mp known))
  rw [blockWeights_eq length]
  exact foldlM_addToBlock wellFormed (fun _ => List.mem_range.mp) held

theorem weightIn_of_unused {b : BlockId} (unused : some b ∉ p) :
    g.weightIn p b = Weight.zeros g.nodeDim := by
  have none : g.nodesIn p b = [] := List.filter_eq_nil_iff.mpr fun n _ held =>
    unused (Partition.mem_of_block? (of_decide_eq_true held))
  rw [weightIn, none]
  rfl

theorem getD_blockWeights (b : BlockId) : ((List.range p.blockCount).map (g.weightIn p))[b]?.getD
    (Weight.zeros g.nodeDim) = g.weightIn p b :=
  getD_table (fun _ beyond => weightIn_of_unused (Partition.unused_of_le beyond)) b

section
variable [Neg α] [Sub α] [Div α] [NatCast α] [LE α] [DecidableLE α] [Gauge α]

theorem blockImbalance_congr {q : Partition} (dim : k.nodeDim = g.nodeDim)
    (weights : k.blockWeights p = g.blockWeights q) : k.blockImbalance p = g.blockImbalance q := by
  rw [blockImbalance, blockImbalance, weights, dim]

end
end Multilevel.Hypergraph
