import Multilevel.Proofs.Exact
import Multilevel.Proofs.Hypergraph.Adjacency
import Multilevel.Proofs.Hypergraph.Cut
import Multilevel.Proofs.Hypergraph.Reachable

/-!
# Metrics as sums over cut edges

The cut, the cut at a node and the cut by block are sums of the weights of the same edges: those
whose assigned members are in different blocks. Summed up over all nodes or blocks, the weight of an
edge counts once for each of its members or of the blocks that they are in.
-/
namespace Multilevel

open Weight

variable {α : Type} {p : Partition} {b : BlockId} {n : NodeId}

/-! ### Cut edges -/

namespace Edge

theorem mem_assigned {e : Edge α} : b ∈ e.assigned p ↔ ∃ n ∈ e.members, p.block? n = some b :=
  List.mem_filterMap

theorem used_of_assigned {e : Edge α} (touched : b ∈ e.assigned p) : some b ∈ p := by
  obtain ⟨n, -, held⟩ := mem_assigned.mp touched
  exact Partition.mem_of_block? held

theorem WellFormed.countP_members {e : Edge α} {dim count : Nat}
    (wellFormed : e.WellFormed dim count) :
    (List.range count).countP (· ∈ e.members) = e.members.length := by
  rw [countP_range_mem wellFormed.known,
    eraseDups_of_nodup (wellFormed.increasing.imp Nat.ne_of_lt)]

/-- Members of the edge are in different blocks. -/
def Cut (e : Edge α) (p : Partition) : Prop := ∃ a ∈ e.assigned p, ∃ b ∈ e.assigned p, a ≠ b

instance decidableCut (e : Edge α) (p : Partition) : Decidable (e.Cut p) :=
  inferInstanceAs (Decidable (∃ a ∈ e.assigned p, ∃ b ∈ e.assigned p, a ≠ b))

theorem isCut_eq (e : Edge α) (p : Partition) : e.isCut p = decide (e.Cut p) := by
  rw [Bool.eq_iff_iff, decide_eq_true_eq, isCut_iff, ← Nat.not_le, imageAlong,
    Ordered.length_ofList_le_one]
  simp only [Cut, assigned, not_forall, exists_prop, ne_eq]

end Edge

namespace Hypergraph

variable {g : Hypergraph α}

def edgesCut (g : Hypergraph α) (p : Partition) : List (Edge α) := g.edges.filter (·.Cut p)

theorem filter_isCut (edges : List (Edge α)) :
    edges.filter (·.isCut p) = edges.filter (·.Cut p) :=
  List.filter_congr fun e _ => e.isCut_eq p

theorem WellFormed.weights_edgesCut (wellFormed : g.WellFormed) :
    ∀ e ∈ g.edgesCut p, e.weights.length = g.edgeDim :=
  fun e member => (wellFormed.edges e (List.mem_filter.mp member).1).weights

theorem isCutEdge_eq (length : p.length = g.nodeCount) {e : EdgeId} {edge : Edge α}
    (read : g.edges[e]? = some edge) : g.isCutEdge e p = .ok (edge.Cut p) := by
  rw [← edge.isCut_eq]
  exact bind_ok.mpr ⟨(), checkPartition_ok.mpr length, bind_ok.mpr ⟨edge, edge_ok.mpr read, rfl⟩⟩

/-! ### Two blocks -/

/-- Where two blocks are all there are, every cut edge touches both. -/
theorem edgesCut_filter_of_pair {c d : BlockId} (pair : ∀ b, some b ∈ p → b = c ∨ b = d) :
    (g.edgesCut p).filter (c ∈ ·.assigned p) = g.edgesCut p ∧
      (g.edgesCut p).filter (d ∈ ·.assigned p) = g.edgesCut p := by
  have both : ∀ e ∈ g.edgesCut p, c ∈ e.assigned p ∧ d ∈ e.assigned p := by
    intro e member
    obtain ⟨a, left, b, right, different⟩ := of_decide_eq_true (List.mem_filter.mp member).2
    rcases pair a (Edge.used_of_assigned left) with rfl | rfl <;>
      rcases pair b (Edge.used_of_assigned right) with rfl | rfl
    · exact absurd rfl different
    · exact ⟨left, right⟩
    · exact ⟨right, left⟩
    · exact absurd rfl different
  exact ⟨List.filter_eq_self.mpr fun e member => decide_eq_true (both e member).1,
    List.filter_eq_self.mpr fun e member => decide_eq_true (both e member).2⟩

/-! ### Sums over cut edges -/

section
variable [Zero α] [Add α]

def sumCut (g : Hypergraph α) (p : Partition) (keep : Edge α → Bool) : List α :=
  sumOf g.edgeDim (((g.edgesCut p).filter keep).map Edge.weights)

theorem WellFormed.sum_edgesCut (wellFormed : g.WellFormed) (keep : Edge α → Bool) :
    Weight.sum g.edgeDim (((g.edgesCut p).filter keep).map Edge.weights) = .ok (g.sumCut p keep) :=
  sum_ok (List.forall_mem_map.mpr fun e member =>
    wellFormed.weights_edgesCut e (List.mem_filter.mp member).1)

theorem WellFormed.length_sumCut (wellFormed : g.WellFormed) (keep : Edge α → Bool) :
    (g.sumCut p keep).length = g.edgeDim :=
  length_sumOf (List.forall_mem_map.mpr fun e member =>
    wellFormed.weights_edgesCut e (List.mem_filter.mp member).1)

theorem WellFormed.cut_eq (wellFormed : g.WellFormed) (length : p.length = g.nodeCount) :
    g.cut p = .ok (sumOf g.edgeDim ((g.edgesCut p).map Edge.weights)) := by
  rw [cut_ok wellFormed length, weights_cutEdges, filter_isCut, edgesCut]

theorem WellFormed.cutAt_eq (wellFormed : g.WellFormed) (length : p.length = g.nodeCount)
    (known : n < g.nodeCount) : g.cutAt p n = .ok (g.sumCut p (n ∈ ·.members)) := by
  have spanning := wellFormed.spanning_eq
    (fun edges => Weight.sum g.edgeDim ((edges.filter (·.isCut p)).map Edge.weights)) n
  rw [if_pos known, filter_isCut, List.filter_comm] at spanning
  rw [cutAt, checkPartition_ok (u := ()).mpr length]
  exact spanning.trans (wellFormed.sum_edgesCut _)

theorem WellFormed.mapM_cutAt (wellFormed : g.WellFormed) (length : p.length = g.nodeCount) :
    (List.range g.nodeCount).mapM (g.cutAt p) =
      .ok ((List.range g.nodeCount).map fun n => g.sumCut p (n ∈ ·.members)) :=
  mapM_eq_map fun _ member => wellFormed.cutAt_eq length (List.mem_range.mp member)

theorem touching_eq (g : Hypergraph α) (p : Partition) (b : BlockId) :
    touching g.edgeDim (g.cutEdges p) b = g.sumCut p (b ∈ ·.assigned p) := by
  rw [touching, cutEdges_eq, filter_isCut, List.filter_map, List.map_map, sumCut, edgesCut]
  refine congrArg (sumOf _ <| List.map _ ·) (List.filter_congr fun e _ => ?_)
  exact decide_eq_decide.mpr Ordered.mem_ofList

def blockTable (g : Hypergraph α) (p : Partition) : List (List α) :=
  (List.range p.blockCount).map fun b => g.sumCut p (b ∈ ·.assigned p)

theorem WellFormed.blockCuts_eq (wellFormed : g.WellFormed) (length : p.length = g.nodeCount) :
    g.blockCuts p = .ok (g.blockTable p) := by
  rw [blockCuts_ok wellFormed length]
  exact congrArg Except.ok (List.map_congr_left fun b _ => g.touching_eq p b)

theorem getElem?_blockTable (used : some b ∈ p) :
    (g.blockTable p)[b]? = some (g.sumCut p (b ∈ ·.assigned p)) :=
  getElem?_table.mpr ⟨Partition.lt_blockCount_of_mem used, rfl⟩

/-! ### Sums of sums -/

section
variable [NatCast α] [Mul α]

/-- Over all blocks, an edge counts once for each block that it touches. -/
theorem WellFormed.sum_blocks (wellFormed : g.WellFormed) (exact : ExactMultiples α)
    (p : Partition) :
    sumOf g.edgeDim (g.blockTable p) =
      sumOf g.edgeDim
        ((g.edgesCut p).map fun e => times (e.assigned p).eraseDups.length e.weights) := by
  refine (exact.sumOf_groups wellFormed.weights_edgesCut _ fun b e => b ∈ e.assigned p).trans ?_
  refine congrArg (sumOf g.edgeDim) (List.map_congr_left fun e _ => ?_)
  rw [countP_range_mem fun b touched =>
    Partition.lt_blockCount_of_mem (Edge.used_of_assigned touched)]

/-- Over all nodes, an edge counts once for each of its members. -/
theorem WellFormed.sum_nodes (wellFormed : g.WellFormed) (exact : ExactMultiples α)
    (p : Partition) :
    sumOf g.edgeDim ((List.range g.nodeCount).map fun n => g.sumCut p (n ∈ ·.members)) =
      sumOf g.edgeDim ((g.edgesCut p).map fun e => times e.members.length e.weights) := by
  refine (exact.sumOf_groups wellFormed.weights_edgesCut _ fun n e => n ∈ e.members).trans ?_
  refine congrArg (sumOf g.edgeDim) (List.map_congr_left fun e member => ?_)
  rw [(wellFormed.edges e (List.mem_filter.mp member).1).countP_members]

/-! ### All metrics -/

/-- What the metrics of a partition say of the edges that it cuts, and so of one another. -/
structure CutMetrics (g : Hypergraph α) (p : Partition) (whole : List α)
    (sizes : List (List α)) : Prop where
  edge : ∀ e edge, g.edges[e]? = some edge → g.isCutEdge e p = .ok (edge.Cut p)
  degree : ∀ e edge, g.edges[e]? = some edge → g.degree e = .ok edge.members.length
  cut : Weight.sum g.edgeDim ((g.edgesCut p).map Edge.weights) = .ok whole
  count : sizes.length = p.blockCount
  block : ∀ (b : BlockId) size, sizes[b]? = some size →
    Weight.sum g.edgeDim (((g.edgesCut p).filter (b ∈ ·.assigned p)).map Edge.weights) = .ok size
  /-- Two blocks are cut from one another along the same edges. -/
  pair : ∀ a b, a ≠ b → (∀ c, some c ∈ p ↔ c = a ∨ c = b) →
    sizes[a]? = some whole ∧ sizes[b]? = some whole
  blocks : ExactMultiples α → ∃ total, Weight.sum g.edgeDim sizes = .ok total ∧
    Weight.sum g.edgeDim ((g.edgesCut p).map fun e =>
      times (e.assigned p).eraseDups.length e.weights) = .ok total
  nodes : ExactMultiples α → ∃ sums total, (List.range g.nodeCount).mapM (g.cutAt p) = .ok sums ∧
    Weight.sum g.edgeDim sums = .ok total ∧
    Weight.sum g.edgeDim ((g.edgesCut p).map fun e => times e.members.length e.weights) = .ok total

theorem WellFormed.sum_times (wellFormed : g.WellFormed) (count : Edge α → Nat) :
    Weight.sum g.edgeDim ((g.edgesCut p).map fun e => times (count e) e.weights) =
      .ok (sumOf g.edgeDim ((g.edgesCut p).map fun e => times (count e) e.weights)) :=
  sum_ok (List.forall_mem_map.mpr fun e member =>
    (List.length_map _).trans (wellFormed.weights_edgesCut e member))

theorem WellFormed.cutMetrics (wellFormed : g.WellFormed) (length : p.length = g.nodeCount) :
    g.CutMetrics p (sumOf g.edgeDim ((g.edgesCut p).map Edge.weights)) (g.blockTable p) where
  edge _ _ := isCutEdge_eq length
  degree _ _ read := map_ok.mpr ⟨_, map_ok.mpr ⟨_, edge_ok.mpr read, rfl⟩, rfl⟩
  cut := sum_ok (List.forall_mem_map.mpr wellFormed.weights_edgesCut)
  count := by rw [blockTable, List.length_map, List.length_range]
  block b size read := by
    rw [(getElem?_table.mp read).2]
    exact wellFormed.sum_edgesCut _
  pair a b _ used := by
    obtain ⟨left, right⟩ := edgesCut_filter_of_pair (g := g) fun c held => (used c).mp held
    rw [getElem?_blockTable ((used a).mpr (.inl rfl)),
      getElem?_blockTable ((used b).mpr (.inr rfl)), sumCut, sumCut, left, right]
    exact ⟨rfl, rfl⟩
  blocks exact := by
    rw [wellFormed.sum_times, ← wellFormed.sum_blocks exact]
    exact ⟨_, sum_ok (List.forall_mem_map.mpr fun b _ => wellFormed.length_sumCut _), rfl⟩
  nodes exact := by
    rw [wellFormed.sum_times, ← wellFormed.sum_nodes exact, wellFormed.mapM_cutAt length]
    exact ⟨_, _, rfl, sum_ok (List.forall_mem_map.mpr fun n _ => wellFormed.length_sumCut _), rfl⟩

/-- Each metric is the sum of the weights of the cut edges that it is about, so all of them agree. -/
theorem Reachable.metrics_agree [One α] (reached : g.Reachable) (length : p.length = g.nodeCount) :
    ∃ whole sizes, g.cut p = .ok whole ∧ g.blockCuts p = .ok sizes ∧
      g.CutMetrics p whole sizes :=
  ⟨_, _, reached.wellFormed.cut_eq length, reached.wellFormed.blockCuts_eq length,
    reached.wellFormed.cutMetrics length⟩

end
end

def kite : Hypergraph Rat :=
  .ofParts ⟨[1], [1]⟩ [[1], [1], [1], [1]]
    [⟨[1 / 2], [0, 1, 2]⟩, ⟨[1 / 3], [2, 3]⟩, ⟨[1 / 5], [0, 3]⟩]

theorem reachable_kite : kite.Reachable := by
  have built : assemble ⟨[1], [1]⟩ [[1], [1], [1], [1]]
      [⟨[1 / 2], [2, 1, 0]⟩, ⟨[1 / 3], [2, 3]⟩, ⟨[1 / 5], [0, 3]⟩] = .ok kite := rfl
  exact reachable_of_assemble built

/-- Two blocks with a gap between their numbers, and a node in neither. -/
theorem metrics_agree_kite :
    kite.CutMetrics [some 3, none, some 0, some 0] [7 / 10] [[7 / 10], [0], [0], [7 / 10]] ∧
    (∃ total : List Rat, Weight.sum 1 [[7 / 10], [0], [0], [7 / 10]] = .ok total ∧
      Weight.sum 1 [times 2 [1 / 2], times 2 [1 / 5]] = .ok total) ∧
    ∃ sizes total, (List.range 4).mapM (kite.cutAt [some 3, none, some 0, some 0]) = .ok sizes ∧
      Weight.sum 1 sizes = .ok total ∧
      Weight.sum 1 [times 3 [1 / 2], times 2 [1 / 5]] = .ok total := by
  obtain ⟨whole, sizes, cut, blockCuts, metrics⟩ := Reachable.metrics_agree
    (p := [some 3, none, some 0, some 0]) reachable_kite rfl
  obtain rfl : [7 / 10] = whole := Except.ok.inj (Eq.trans (by decide +kernel) cut)
  obtain rfl : [[7 / 10], [0], [0], [7 / 10]] = sizes :=
    Except.ok.inj (Eq.trans (by decide +kernel) blockCuts)
  exact ⟨metrics, metrics.blocks exactMultiples_rat, metrics.nodes exactMultiples_rat⟩

end Hypergraph
end Multilevel
