import Mathlib.Data.Nat.Find
import Multilevel.Hypergraph.Overview
import Multilevel.Proofs.Hypergraph.Balance
import Multilevel.Proofs.Hypergraph.Layers
import Multilevel.Proofs.Hypergraph.Parallel

/-!
# Faults of queries

A query fails for what is wrong with its arguments, and for nothing that a graph holds: no vector
has a wrong dimension, and no number that a node or an edge has stored leads nowhere. `QueryFaults`
says of each query which faults it has, and when.
-/
namespace Multilevel.Hypergraph

variable {α : Type} {g : Hypergraph α} {p : Partition} {f : Fault} {n : NodeId} {e : EdgeId}

/-! ### What can be wrong with an argument -/

def Misfit (g : Hypergraph α) (p : Partition) (f : Fault) : Prop :=
  p.length ≠ g.nodeCount ∧ f = .partitionLength g.nodeCount p.length

def NoNode (g : Hypergraph α) (n : NodeId) (f : Fault) : Prop :=
  g.nodeCount ≤ n ∧ f = .unknownNode n

def NoEdge (g : Hypergraph α) (e : EdgeId) (f : Fault) : Prop :=
  g.edgeCount ≤ e ∧ f = .unknownEdge e

/-- The smallest node without a block is reported. -/
def Unassigned (p : Partition) (f : Fault) : Prop :=
  ∃ n, p[n]? = some none ∧ (∀ m < n, p[m]? ≠ some none) ∧ f = .unassignedNode n

/-- The first seed that is no node is reported. -/
def Stray (g : Hypergraph α) (seeds : List NodeId) (f : Fault) : Prop :=
  ∃ before s after, seeds = before ++ s :: after ∧ (∀ a ∈ before, a < g.nodeCount) ∧
    g.nodeCount ≤ s ∧ f = .unknownNode s

/-! ### Lookups -/

theorem checkPartition_error : g.checkPartition p = .error f ↔ g.Misfit p f := by
  unfold checkPartition Misfit
  split <;> simp_all [eq_comm]

theorem node_error : g.node n = .error f ↔ g.NoNode n f := by
  unfold node NoNode
  cases read : g.nodes[n]? with
  | none =>
    have unknown := List.getElem?_eq_none_iff.mp read
    simp [nodeCount, unknown, eq_comm]
  | some node =>
    have known := (List.getElem?_eq_some_iff.mp read).1
    simp [nodeCount, known]

theorem edge_error : g.edge e = .error f ↔ g.NoEdge e f := by
  unfold edge NoEdge
  cases read : g.edges[e]? with
  | none =>
    have unknown := List.getElem?_eq_none_iff.mp read
    simp [edgeCount, unknown, eq_comm]
  | some edge =>
    have known := (List.getElem?_eq_some_iff.mp read).1
    simp [edgeCount, known]

theorem WellFormed.spanning_error (wellFormed : g.WellFormed) {β : Type}
    {k : List (Edge α) → Except Fault β}
    (total : ∀ edges : List (Edge α), edges ⊆ g.edges → ∃ b, k edges = .ok b) :
    (do k (← (← g.incident n).mapM g.edge)) = .error f ↔ g.NoNode n f := by
  obtain ⟨b, done⟩ := total (g.edges.filter (n ∈ ·.members)) (List.filter_subset_self _)
  rw [wellFormed.spanning_eq k n, NoNode, done]
  split
  · rename_i known
    simp [known]
  · rename_i unknown
    simp [Nat.le_of_not_lt unknown, eq_comm]

theorem fitting_error {β : Type} {k : Unit → Except Fault β} {P : Prop}
    (rest : p.length = g.nodeCount → (k () = .error f ↔ P)) :
    g.checkPartition p >>= k = .error f ↔ g.Misfit p f ∨ p.length = g.nodeCount ∧ P := by
  simp only [bind_error, checkPartition_error, checkPartition_ok]
  refine or_congr_right ⟨?_, ?_⟩
  · rintro ⟨u, fits, failed⟩
    exact ⟨fits, (rest fits).mp failed⟩
  · rintro ⟨fits, failed⟩
    exact ⟨(), fits, (rest fits).mpr failed⟩

theorem fitting_total {β : Type} {k : Unit → Except Fault β}
    (total : p.length = g.nodeCount → ∃ b, g.checkPartition p >>= k = .ok b) :
    g.checkPartition p >>= k = .error f ↔ g.Misfit p f := by
  refine (bind_error_left fun u fits => ?_).trans checkPartition_error
  obtain ⟨b, done⟩ := total (checkPartition_ok.mp fits)
  obtain ⟨_, -, rest⟩ := bind_ok.mp done
  exact ⟨b, rest⟩

/-! ### Vectors -/

section
variable [Zero α] [Add α]

theorem WellFormed.exists_sum_edges (wellFormed : g.WellFormed) {edges : List (Edge α)}
    (kept : edges ⊆ g.edges) : ∃ w, Weight.sum g.edgeDim (edges.map Edge.weights) = .ok w :=
  ⟨_, Weight.sum_ok (List.forall_mem_map.mpr fun e member =>
    (wellFormed.edges e (kept member)).weights)⟩

theorem WellFormed.totalNodeWeight_ok (wellFormed : g.WellFormed) :
    g.totalNodeWeight = .ok (Weight.sumOf g.nodeDim (g.nodes.map Node.weights)) :=
  Weight.sum_ok (List.forall_mem_map.mpr wellFormed.nodeWeights)

theorem WellFormed.totalEdgeWeight_ok (wellFormed : g.WellFormed) :
    g.totalEdgeWeight = .ok (Weight.sumOf g.edgeDim (g.edges.map Edge.weights)) :=
  Weight.sum_ok (List.forall_mem_map.mpr fun e member => (wellFormed.edges e member).weights)

theorem WellFormed.memberWeight_error (wellFormed : g.WellFormed) :
    g.memberWeight e = .error f ↔ g.NoEdge e f := by
  have total (members : List NodeId) (read : g.members e = .ok members) :
      ∃ w, (members.mapM g.nodeWeights >>= Weight.sum g.nodeDim) = .ok w := by
    obtain ⟨edge, found, rfl⟩ := map_ok.mp read
    have known := (wellFormed.edges edge (List.mem_of_getElem? (edge_ok.mp found))).known
    have weights : edge.members.mapM g.nodeWeights = .ok (edge.members.map g.weightsAt) :=
      mapM_eq_map fun n member => nodeWeights_eq (known n member)
    have lengths : ∀ w ∈ edge.members.map g.weightsAt, w.length = g.nodeDim :=
      List.forall_mem_map.mpr fun n member => length_weightsAt wellFormed (known n member)
    exact ⟨_, bind_ok.mpr ⟨_, weights, Weight.sum_ok lengths⟩⟩
  exact (bind_error_left total).trans (map_error.trans edge_error)

section
variable [Neg α] [Mul α]

theorem WellFormed.costOfNode_error (wellFormed : g.WellFormed) :
    g.costOfNode n = .error f ↔ g.NoNode n f := by
  refine (bind_error_left fun weights read => ?_).trans (map_error.trans node_error)
  obtain ⟨node, found, rfl⟩ := map_ok.mp read
  have present := List.mem_of_getElem? (node_ok.mp found)
  exact ⟨_, Weight.scalar_ok (wellFormed.nodeWeights node present)⟩

theorem WellFormed.costOfEdge_error (wellFormed : g.WellFormed) :
    g.costOfEdge e = .error f ↔ g.NoEdge e f := by
  refine (bind_error_left fun weights read => ?_).trans (map_error.trans edge_error)
  obtain ⟨edge, found, rfl⟩ := map_ok.mp read
  have present := List.mem_of_getElem? (edge_ok.mp found)
  exact ⟨_, Weight.scalar_ok (wellFormed.edges edge present).weights⟩

end
end

theorem WellFormed.maxNodeWeight_ok [Zero α] [LE α] [DecidableLE α] (wellFormed : g.WellFormed) :
    g.maxNodeWeight = .ok ((g.nodes.map Node.weights).foldl (List.zipWith larger)
      (Weight.zeros g.nodeDim)) := by
  refine foldlM_eq_foldl (fun w => w.length = g.nodeDim) ?_ (Weight.length_zeros _)
  intro held weights member length
  obtain ⟨node, present, rfl⟩ := List.mem_map.mp member
  have fits : held.length = node.weights.length :=
    length.trans (wellFormed.nodeWeights node present).symm
  exact ⟨if_pos fits, by rw [List.length_zipWith, ← fits, Nat.min_self, length]⟩

/-! ### Blocks -/

section
variable [Zero α] [Add α]

theorem blockWeights_unassigned (wellFormed : g.WellFormed) (length : p.length = g.nodeCount)
    (none : p[n]? = some none) (first : ∀ m < n, p[m]? ≠ some Option.none) :
    g.blockWeights p = .error (.unassignedNode n) := by
  have known : n < g.nodeCount := length ▸ (List.getElem?_eq_some_iff.mp none).1
  -- the nodes before it have blocks, so the sum comes as far as to it
  have split : ∃ after, List.range g.nodeCount = List.range n ++ n :: after := by
    obtain ⟨k, count⟩ := Nat.exists_eq_add_of_lt known
    rw [count, Nat.add_assoc, List.range_add, List.range_succ_eq_map]
    exact ⟨_, rfl⟩
  obtain ⟨after, nodes⟩ := split
  have before : (List.range n).foldlM (g.addToBlock p)
      (List.replicate p.blockCount (Weight.zeros g.nodeDim)) = .ok _ :=
    foldlM_addToBlock wellFormed (fun m member => (List.mem_range.mp member).trans known)
      fun m member free => by
        have below := List.mem_range.mp member
        have read := Partition.getElem?_eq_block? (length ▸ below.trans known)
        exact first m below (read.trans (congrArg some free))
  have stop (sizes : List (List α)) : g.addToBlock p sizes n = .error (.unassignedNode n) := by
    rw [addToBlock, Partition.block?, none]
    rfl
  rw [blockWeights_eq length, nodes, List.foldlM_append, before]
  exact bind_error.mpr (.inr ⟨_, rfl, bind_error.mpr (.inl (stop _))⟩)

theorem blockWeights_error (wellFormed : g.WellFormed) : g.blockWeights p = .error f ↔
    g.Misfit p f ∨ p.length = g.nodeCount ∧ Unassigned p f := by
  by_cases length : p.length = g.nodeCount
  · simp only [Misfit, length, ne_eq, not_true, false_and, false_or, true_and]
    by_cases assigned : none ∈ p
    · have free : ∃ n, p[n]? = some none := List.mem_iff_getElem?.mp assigned
      have first : ∀ m < Nat.find free, p[m]? ≠ some none := fun m => Nat.find_min free
      rw [blockWeights_unassigned wellFormed length (Nat.find_spec free) first]
      constructor
      · intro same
        exact ⟨_, Nat.find_spec free, first, (Except.error.inj same).symm⟩
      · rintro ⟨n, none, before, rfl⟩
        have same : Nat.find free = n := (Nat.find_eq_iff free).mpr ⟨none, before⟩
        rw [same]
    · rw [blockWeights_ok wellFormed length assigned]
      refine ⟨nofun, ?_⟩
      rintro ⟨n, none, -, -⟩
      exact absurd (List.mem_of_getElem? none) assigned
  · have fails : g.blockWeights p = .error f ↔ g.Misfit p f :=
      fitting_total fun fits => absurd fits length
    exact fails.trans (or_iff_left fun fits => length fits.1).symm

end

/-! ### Searches -/

theorem hopLayers_error (wellFormed : g.WellFormed) {seeds : List NodeId} (seeded : seeds ≠ [])
    {bound : Nat} : g.hopLayers seeds bound = .error f ↔ g.Stray seeds f := by
  by_cases known : ∀ s ∈ seeds, s < g.nodeCount
  · obtain ⟨layers, searched, -⟩ := wellFormed.hopLayers_ok seeded known bound
    rw [searched]
    refine ⟨nofun, ?_⟩
    rintro ⟨before, s, after, rfl, -, unknown, -⟩
    exact absurd (known s (by simp)) (Nat.not_lt.mpr unknown)
  · rw [hopLayers_eq seeded]
    cases found : seeds.find? (g.nodeCount ≤ ·) with
    | none =>
      have all := List.find?_eq_none.mp found
      exact absurd (fun s listed => by simpa using all s listed) known
    | some s =>
      constructor
      · intro failed
        obtain ⟨unknown, before, after, split, first⟩ := List.find?_eq_some_iff_append.mp found
        exact ⟨before, s, after, split, fun a member => by simpa using first a member,
          of_decide_eq_true unknown, (Except.error.inj failed).symm⟩
      · rintro ⟨before, t, after, rfl, inside, unknown, rfl⟩
        have skipped : before.find? (g.nodeCount ≤ ·) = none :=
          List.find?_eq_none.mpr fun a member => by simpa using inside a member
        have first : (t :: after).find? (g.nodeCount ≤ ·) = some t :=
          List.find?_cons_of_pos (decide_eq_true unknown)
        rw [List.find?_append, skipped, Option.none_or, first] at found
        rw [Option.some.inj found]

/-! ### All queries -/

variable [Zero α] [Neg α] [Add α] [Sub α] [Mul α] [Div α] [NatCast α]
  [LE α] [DecidableLE α] [LT α] [DecidableLT α] [Gauge α]

structure QueryFaults (g : Hypergraph α) : Prop where
  cut : ∀ p f, g.cut p = .error f ↔ g.Misfit p f
  blockCuts : ∀ p f, g.blockCuts p = .error f ↔ g.Misfit p f
  blockWeights : ∀ p f, g.blockWeights p = .error f ↔
    g.Misfit p f ∨ p.length = g.nodeCount ∧ Unassigned p f
  blockImbalance : ∀ p f, g.blockImbalance p = .error f ↔
    g.Misfit p f ∨ p.length = g.nodeCount ∧ Unassigned p f
  cutAt : ∀ p n f, g.cutAt p n = .error f ↔ g.Misfit p f ∨ p.length = g.nodeCount ∧ g.NoNode n f
  isCutEdge : ∀ e p f, g.isCutEdge e p = .error f ↔
    g.Misfit p f ∨ p.length = g.nodeCount ∧ g.NoEdge e f
  neighbors : ∀ n f, g.neighbors n = .error f ↔ g.NoNode n f
  /-- The second node is looked up first. -/
  connected : ∀ a b f, g.connected a b = .error f ↔
    g.NoNode b f ∨ b < g.nodeCount ∧ g.NoNode a f
  hopLayers : ∀ seeds bound f, seeds ≠ [] →
    (g.hopLayers seeds bound = .error f ↔ g.Stray seeds f)
  incident : ∀ n f, g.incident n = .error f ↔ g.NoNode n f
  nodeWeights : ∀ n f, g.nodeWeights n = .error f ↔ g.NoNode n f
  costOfNode : ∀ n f, g.costOfNode n = .error f ↔ g.NoNode n f
  members : ∀ e f, g.members e = .error f ↔ g.NoEdge e f
  degree : ∀ e f, g.degree e = .error f ↔ g.NoEdge e f
  edgeWeights : ∀ e f, g.edgeWeights e = .error f ↔ g.NoEdge e f
  costOfEdge : ∀ e f, g.costOfEdge e = .error f ↔ g.NoEdge e f
  memberWeight : ∀ e f, g.memberWeight e = .error f ↔ g.NoEdge e f
  maxNodeWeight : ∃ w, g.maxNodeWeight = .ok w
  totalNodeWeight : ∃ w, g.totalNodeWeight = .ok w
  totalEdgeWeight : ∃ w, g.totalEdgeWeight = .ok w
  overview : ∀ histograms, ∃ o, Overview.of g histograms = .ok o
  compressed : ∃ h, g.compressed = .ok h

omit [Sub α] [Div α] [NatCast α] [LE α] [DecidableLE α] [LT α] [DecidableLT α] [Gauge α] in
theorem WellFormed.exists_costs (wellFormed : g.WellFormed) :
    ∃ costs, (List.range g.edgeCount).mapM g.costOfEdge = .ok costs := by
  refine exists_mapM fun e member => ?_
  cases cost : g.costOfEdge e with
  | ok c => exact ⟨c, rfl⟩
  | error fault =>
    have unknown := (wellFormed.costOfEdge_error.mp cost).1
    exact absurd (List.mem_range.mp member) (Nat.not_lt.mpr unknown)

theorem WellFormed.exists_overview (wellFormed : g.WellFormed) (histograms : Bool) :
    ∃ o, Overview.of g histograms = .ok o := by
  obtain ⟨costs, costed⟩ := wellFormed.exists_costs
  have length : (Weight.sumOf g.edgeDim (g.edges.map Edge.weights)).length = g.edgeDim :=
    Weight.length_sumOf (List.forall_mem_map.mpr fun e member =>
      (wellFormed.edges e member).weights)
  exact ⟨_, bind_ok.mpr ⟨costs, costed, bind_ok.mpr ⟨_, wellFormed.totalEdgeWeight_ok,
    bind_ok.mpr ⟨_, wellFormed.totalNodeWeight_ok, bind_ok.mpr ⟨_, Weight.scalar_ok length, rfl⟩⟩⟩⟩⟩

theorem WellFormed.queryFaults (wellFormed : g.WellFormed) : g.QueryFaults where
  cut p f := fitting_total fun length => ⟨_, cut_ok wellFormed length⟩
  blockCuts p f := fitting_total fun length => ⟨_, blockCuts_ok wellFormed length⟩
  blockWeights p f := blockWeights_error wellFormed
  blockImbalance p f := (bind_error_left fun _ _ => ⟨_, rfl⟩).trans (blockWeights_error wellFormed)
  cutAt p n f := fitting_error fun _ => wellFormed.spanning_error fun edges kept =>
    wellFormed.exists_sum_edges (List.Subset.trans (List.filter_subset_self edges) kept)
  isCutEdge e p f := fitting_error fun _ =>
    (bind_error_left fun _ _ => ⟨_, rfl⟩).trans edge_error
  neighbors n f := wellFormed.spanning_error fun _ _ => ⟨_, rfl⟩
  connected a b f := by
    refine bind_error.trans (or_congr node_error ?_)
    have reading : (∃ node, g.node b = .ok node) ↔ b < g.nodeCount := by
      simp only [node_ok, List.getElem?_eq_some_iff, exists_comm (α := Node α), exists_eq',
        exists_prop, and_true, nodeCount]
    rw [← reading, ← exists_and_right]
    exact exists_congr fun _ => and_congr_right fun _ =>
      wellFormed.spanning_error fun _ _ => ⟨_, rfl⟩
  hopLayers seeds bound f seeded := hopLayers_error wellFormed seeded
  incident n f := map_error.trans node_error
  nodeWeights n f := map_error.trans node_error
  costOfNode n f := wellFormed.costOfNode_error
  members e f := map_error.trans edge_error
  degree e f := map_error.trans (map_error.trans edge_error)
  edgeWeights e f := map_error.trans edge_error
  costOfEdge e f := wellFormed.costOfEdge_error
  memberWeight e f := wellFormed.memberWeight_error
  maxNodeWeight := ⟨_, wellFormed.maxNodeWeight_ok⟩
  totalNodeWeight := ⟨_, wellFormed.totalNodeWeight_ok⟩
  totalEdgeWeight := ⟨_, wellFormed.totalEdgeWeight_ok⟩
  overview := wellFormed.exists_overview
  compressed := ⟨_, compressed_eq wellFormed⟩

end Multilevel.Hypergraph
