import Multilevel.Proofs.Hypergraph.Adjacency
import Multilevel.Proofs.Hypergraph.Balance
import Multilevel.Proofs.Hypergraph.NormalForm

/-!
# Measuring a compressed graph

What is measured on a graph adds up the weights of edges that their members select, and a merged
edge has the sum of the weights that are selected with it. Nodes and blocks are not affected at
all, nor is anything that only asks which nodes an edge joins.
-/
namespace Multilevel.Hypergraph

open Weight

variable {α : Type} [Zero α] [Add α] {g : Hypergraph α} {p : Partition}

/-! ### Selected edges -/

def selected (keep : List NodeId → Bool) (edges : List (Edge α)) : List (List α) :=
  (edges.filter (keep ·.members)).map Edge.weights

theorem sumOf_selected_merged (exact : ExactAddition α) {dim : Nat} {edges : List (Edge α)}
    (lengths : ∀ e ∈ edges, e.weights.length = dim) (keep : List NodeId → Bool) :
    sumOf dim (selected keep (merged edges)) = sumOf dim (selected keep edges) := by
  -- selected edges are those that a change to one set of members keeps
  let change (m : List NodeId) : Option (List NodeId) := if keep m then some [] else none
  have all (edges : List (Edge α)) :
      parallel (edges.filterMap (changed change)) [] = selected keep edges := by
    rw [parallel_filterMap_changed, selected]
    refine congrArg (List.map _) (List.filter_congr fun e _ => ?_)
    by_cases kept : keep e.members <;> simp [change, kept]
  rw [← all, ← all]
  exact sumOf_parallel_merged change exact lengths []

theorem WellFormed.sum_selected (wellFormed : g.WellFormed) (keep : List NodeId → Bool) :
    Weight.sum g.edgeDim (selected keep g.edges) = .ok (sumOf g.edgeDim (selected keep g.edges)) :=
  sum_ok (List.forall_mem_map.mpr fun e member =>
    (wellFormed.edges e (List.mem_filter.mp member).1).weights)

theorem WellFormed.sum_selected_compression (wellFormed : g.WellFormed) (exact : ExactAddition α)
    (keep : List NodeId → Bool) : Weight.sum g.edgeDim (selected keep g.compression.edges) =
      Weight.sum g.edgeDim (selected keep g.edges) := by
  have same := sumOf_selected_merged exact (fun e present => (wellFormed.edges e present).weights) keep
  exact (wellFormed.compression.sum_selected keep).trans
    ((congrArg Except.ok same).trans (wellFormed.sum_selected keep).symm)

/-! ### Metrics as sums of selected edges -/

def cutsMembers (p : Partition) (m : List NodeId) : Bool := Edge.isCut (⟨[], m⟩ : Edge Unit) p

def touchesMembers (p : Partition) (b : BlockId) (m : List NodeId) : Bool :=
  b ∈ Edge.blocks (⟨[], m⟩ : Edge Unit) p

omit [Zero α] [Add α] in
theorem selected_filter (keep other : List NodeId → Bool) (edges : List (Edge α)) :
    ((edges.filter (other ·.members)).filter (keep ·.members)).map Edge.weights =
      selected (fun m => keep m && other m) edges := by
  rw [selected, List.filter_filter]

theorem WellFormed.totalEdgeWeight_compression (wellFormed : g.WellFormed)
    (exact : ExactAddition α) : g.compression.totalEdgeWeight = g.totalEdgeWeight := by
  have all (edges : List (Edge α)) : selected (fun _ => true) edges = edges.map Edge.weights :=
    congrArg (List.map _) (List.filter_true edges)
  have same := wellFormed.sum_selected_compression exact fun _ => true
  rw [all, all] at same
  exact same

omit [Zero α] in
theorem WellFormed.checkPartition_compression (wellFormed : g.WellFormed) (p : Partition) :
    g.compression.checkPartition p = g.checkPartition p := by
  rw [checkPartition, checkPartition, wellFormed.merges_compression.nodeCount]

theorem WellFormed.cut_compression (wellFormed : g.WellFormed) (exact : ExactAddition α)
    (p : Partition) : g.compression.cut p = g.cut p := by
  have same := wellFormed.sum_selected_compression exact (cutsMembers p)
  rw [cut, cut, wellFormed.checkPartition_compression]
  exact congrArg (g.checkPartition p >>= fun _ => ·) same

theorem WellFormed.cutAt_compression (wellFormed : g.WellFormed) (exact : ExactAddition α)
    (p : Partition) (n : NodeId) : g.compression.cutAt p n = g.cutAt p n := by
  let cost (edges : List (Edge α)) : Except Fault (List α) :=
    Weight.sum g.edgeDim ((edges.filter (·.isCut p)).map Edge.weights)
  have spanned (edges : List (Edge α)) :
      cost (edges.filter (n ∈ ·.members)) =
        Weight.sum g.edgeDim (selected (fun m => cutsMembers p m && n ∈ m) edges) :=
    congrArg _ (selected_filter (cutsMembers p) (n ∈ ·) edges)
  have same : (do cost (← (← g.compression.incident n).mapM g.compression.edge)) =
      (do cost (← (← g.incident n).mapM g.edge)) := by
    rw [wellFormed.compression.spanning_eq cost, wellFormed.spanning_eq cost,
      wellFormed.merges_compression.nodeCount, spanned, spanned,
      wellFormed.sum_selected_compression exact]
  rw [cutAt, cutAt, wellFormed.checkPartition_compression]
  exact congrArg (g.checkPartition p >>= fun _ => ·) same

theorem touching_cutEdges (g : Hypergraph α) (p : Partition) (b : BlockId) :
    touching g.edgeDim (g.cutEdges p) b = sumOf g.edgeDim (selected
      (fun m => touchesMembers p b m && cutsMembers p m) g.edges) := by
  rw [touching, cutEdges_eq, List.filter_map, List.map_map]
  exact congrArg (sumOf _) (selected_filter (touchesMembers p b) (cutsMembers p) g.edges)

theorem WellFormed.blockCuts_compression (wellFormed : g.WellFormed) (exact : ExactAddition α)
    {p : Partition} (length : p.length = g.nodeCount) :
    g.compression.blockCuts p = g.blockCuts p := by
  have count := length.trans wellFormed.merges_compression.nodeCount.symm
  rw [blockCuts_ok wellFormed length, blockCuts_ok wellFormed.compression count]
  refine congrArg Except.ok (List.map_congr_left fun b _ => ?_)
  rw [touching_cutEdges, touching_cutEdges]
  exact sumOf_selected_merged exact (fun e present => (wellFormed.edges e present).weights) _

/-! ### The same measurements -/

omit [Zero α] in
theorem WellFormed.sameSpans_compression (wellFormed : g.WellFormed) :
    g.compression.SameSpans g :=
  ⟨wellFormed.merges_compression.nodeCount, wellFormed.merges_compression.members⟩

section
variable [Neg α] [Sub α] [Div α] [NatCast α] [LE α] [DecidableLE α] [Gauge α]

/-- A graph and its compressed graph have the same neighbourhoods and block weights, and where
addition is exact also the same cuts and edge weight. -/
theorem Reachable.compressed_invisible [One α] (reached : g.Reachable) :
    ∃ k, g.compressed = .ok k ∧
    (∀ n, k.neighbors n = g.neighbors n) ∧
    (∀ a b, k.connected a b = g.connected a b) ∧
    (∀ seeds distance, k.hopLayers seeds distance = g.hopLayers seeds distance) ∧
    (∀ p : Partition, p.length = g.nodeCount →
      k.blockWeights p = g.blockWeights p ∧ k.blockImbalance p = g.blockImbalance p) ∧
    (ExactAddition α → k.totalEdgeWeight = g.totalEdgeWeight ∧
      ∀ p : Partition, p.length = g.nodeCount →
        k.cut p = g.cut p ∧ (∀ n, k.cutAt p n = g.cutAt p n) ∧ k.blockCuts p = g.blockCuts p) := by
  have wellFormed := reached.wellFormed
  have merged := wellFormed.compression
  have spans := wellFormed.sameSpans_compression
  refine ⟨g.compression, compressed_eq wellFormed, spans.neighbors_eq merged wellFormed,
    spans.connected_eq merged wellFormed, spans.hopLayers_eq merged wellFormed,
    fun p length => ?_, fun exact => ⟨wellFormed.totalEdgeWeight_compression exact,
    fun p length => ⟨wellFormed.cut_compression exact p, wellFormed.cutAt_compression exact p,
      wellFormed.blockCuts_compression exact length⟩⟩⟩
  have weights : g.compression.blockWeights p = g.blockWeights p :=
    blockWeights_congr rfl wellFormed.merges_compression.nodeWeights length
  exact ⟨weights, blockImbalance_congr rfl weights⟩

end

def fractions : Hypergraph Rat :=
  .ofParts ⟨[1], [1]⟩ [[1 / 2], [1 / 3], [2]] [⟨[1 / 6], [0, 1]⟩, ⟨[1], [1, 2]⟩, ⟨[1 / 3], [0, 1]⟩]

theorem compressed_invisible_fractions : ∃ k, fractions.compressed = .ok k ∧
    k.edges = [⟨[1 / 2], [0, 1]⟩, ⟨[1], [1, 2]⟩] ∧
    k.hopLayers [2] 5 = fractions.hopLayers [2] 5 ∧
    k.blockImbalance [some 1, some 0, some 2] = fractions.blockImbalance [some 1, some 0, some 2] ∧
    k.cutAt [some 1, some 0, some 2] 0 = fractions.cutAt [some 1, some 0, some 2] 0 ∧
    k.blockCuts [some 1, some 0, some 2] = fractions.blockCuts [some 1, some 0, some 2] := by
  have built : assemble ⟨[1], [1]⟩ [[1 / 2], [1 / 3], [2]]
      [⟨[1 / 6], [0, 1]⟩, ⟨[1], [1, 2]⟩, ⟨[1 / 3], [1, 0]⟩] = .ok fractions := rfl
  obtain ⟨k, made, -, -, layers, blocks, rest⟩ :=
    Reachable.compressed_invisible (reachable_of_assemble built)
  have length : ([some 1, some 0, some 2] : Partition).length = fractions.nodeCount := rfl
  obtain ⟨-, -, spanning, blockCuts⟩ := (rest exactAddition_rat).imp_right fun all => all _ length
  refine ⟨k, made, ?_, layers [2] 5, (blocks _ length).2, spanning 0, blockCuts⟩
  obtain ⟨h, read, edges⟩ : ∃ h, fractions.compressed = .ok h ∧
      h.edges = [⟨[1 / 2], [0, 1]⟩, ⟨[1], [1, 2]⟩] := ⟨_, rfl, by decide +kernel⟩
  rwa [Except.ok.inj (made.symm.trans read)]

end Multilevel.Hypergraph
