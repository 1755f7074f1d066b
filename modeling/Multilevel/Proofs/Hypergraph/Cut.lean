import Multilevel.Proofs.Hypergraph.Quotient
import Multilevel.Proofs.Hypergraph.WellFormed
import Multilevel.Proofs.Weight

/-!
# Cuts as quotients

A partition is a map from nodes to blocks, and the edges that it cuts are those that go along with
it. The cut weights depend on these edges alone, so two graphs with the same edges between blocks
have the same cut.
-/
namespace Multilevel

variable {α : Type}

/-! ### Blocks in use -/

namespace Partition

theorem block?_eq_some {p : Partition} {n : NodeId} {b : BlockId} :
    p.block? n = some b ↔ p[n]? = some (some b) := by
  simp [block?, Option.join_eq_some_iff]

theorem getElem?_eq_block? {p : Partition} {n : NodeId} (known : n < p.length) :
    p[n]? = some (p.block? n) := by
  rw [block?, List.getElem?_eq_getElem known]
  rfl

theorem block?_of_le {p : Partition} {n : NodeId} (outside : p.length ≤ n) : p.block? n = none := by
  rw [block?, List.getElem?_eq_none outside]
  rfl

theorem exists_block {p : Partition} {n : NodeId} (assigned : none ∉ p) (known : n < p.length) :
    ∃ b, p.block? n = some b := by
  refine Option.ne_none_iff_exists'.mp fun none => assigned ?_
  exact List.mem_of_getElem? (none ▸ getElem?_eq_block? known)

theorem blockCount_le_iff {p : Partition} {k : Nat} :
    p.blockCount ≤ k ↔ ∀ b, some b ∈ p → b < k := by
  -- for any count to start from, which has to be small as well
  refine Iff.trans ?_ (and_iff_right (Nat.zero_le k))
  rw [blockCount]
  generalize 0 = start
  induction p generalizing start with
  | nil => simp
  | cons first p ih =>
    rw [List.foldl_cons, ih]
    cases first with
    | none => simp
    | some a =>
      simp only [List.mem_cons, Option.some.injEq, forall_eq_or_imp, Nat.max_le, Nat.succ_le_iff,
        and_assoc]

theorem mem_of_block? {p : Partition} {n : NodeId} {b : BlockId} (held : p.block? n = some b) :
    some b ∈ p :=
  List.mem_of_getElem? (block?_eq_some.mp held)

theorem lt_blockCount_of_mem {p : Partition} {b : BlockId} (used : some b ∈ p) : b < p.blockCount :=
  blockCount_le_iff.mp (Nat.le_refl _) b used

theorem lt_blockCount {p : Partition} {n : NodeId} {b : BlockId} (held : p.block? n = some b) :
    b < p.blockCount :=
  lt_blockCount_of_mem (mem_of_block? held)

theorem unused_of_le {p : Partition} {b : BlockId} (beyond : p.blockCount ≤ b) : some b ∉ p :=
  fun used => absurd (lt_blockCount_of_mem used) (Nat.not_lt.mpr beyond)

end Partition

/-! ### Cut edges -/

def Edge.toBlocks (p : Partition) (e : Edge α) : Edge α := ⟨e.weights, e.blocks p⟩

theorem Edge.isCut_iff {e : Edge α} {p : Partition} :
    e.isCut p = true ↔ 1 < (e.imageAlong p.block?).length := by
  rw [← Nat.not_le, imageAlong, Ordered.length_ofList_le_one]
  simp only [isCut, assigned]
  cases e.members.filterMap p.block? with
  | nil => simp
  | cons first rest =>
    simp only [List.any_eq_true, decide_eq_true_eq]
    constructor
    · rintro ⟨b, member, different⟩ same
      exact different (same b (List.mem_cons_of_mem _ member) first List.mem_cons_self)
    · intro different
      refine Classical.byContradiction fun none => different ?_
      have same : ∀ a ∈ first :: rest, a = first := by
        intro a member
        rcases List.mem_cons.mp member with rfl | later
        · rfl
        · exact Classical.byContradiction fun other => none ⟨a, later, other⟩
      exact fun a left b right => (same a left).trans (same b right).symm

theorem Edge.filterMap_along_block? (edges : List (Edge α)) (p : Partition) :
    edges.filterMap (Edge.along p.block?) = (edges.filter (·.isCut p)).map (Edge.toBlocks p) := by
  induction edges with
  | nil => rfl
  | cons e edges ih =>
    by_cases cut : e.isCut p = true
    · rw [List.filter_cons_of_pos (p := fun e : Edge α => e.isCut p) cut, List.map_cons, ← ih,
        List.filterMap_cons_some (Edge.along_eq_some.mpr ⟨Edge.isCut_iff.mp cut, rfl⟩)]
      rfl
    · have lost : e.along p.block? = none := if_neg fun spans => cut (Edge.isCut_iff.mpr spans)
      rw [List.filter_cons_of_neg (p := fun e : Edge α => e.isCut p) cut, ← ih,
        List.filterMap_cons_none lost]

namespace Hypergraph

/-- The cut edges of a graph, with the blocks they touch in place of their members. -/
def cutEdges (g : Hypergraph α) (p : Partition) : List (Edge α) :=
  g.edges.filterMap (Edge.along p.block?)

theorem cutEdges_eq (g : Hypergraph α) (p : Partition) :
    g.cutEdges p = (g.edges.filter (·.isCut p)).map (Edge.toBlocks p) :=
  Edge.filterMap_along_block? g.edges p

theorem weights_cutEdges (g : Hypergraph α) (p : Partition) :
    (g.cutEdges p).map Edge.weights = (g.edges.filter (·.isCut p)).map Edge.weights := by
  rw [cutEdges_eq, List.map_map]
  rfl

/-- The cut edges of a quotient are those of the graph it was made of, where each node has the
block of the node it goes to. -/
theorem cutEdges_along {g child : Hypergraph α} {f : NodeId → Option NodeId} {p q : Partition}
    (edges : child.edges = g.edges.filterMap (Edge.along f))
    (blocks : ∀ e ∈ g.edges, ∀ n ∈ e.members, q.block? n = (f n).bind p.block?) :
    child.cutEdges p = g.cutEdges q := by
  rw [cutEdges, cutEdges, edges, Edge.filterMap_along_along]
  exact List.filterMap_congr fun e member =>
    Edge.along_congr fun n spans => (blocks e member n spans).symm

/-! ### The cut -/

theorem checkPartition_ok {g : Hypergraph α} {p : Partition} {u : Unit} :
    g.checkPartition p = .ok u ↔ p.length = g.nodeCount := by
  unfold checkPartition
  split <;> simp_all

theorem mem_cutEdges {g : Hypergraph α} {p : Partition} {d : Edge α} (member : d ∈ g.cutEdges p) :
    ∃ e ∈ g.edges, d = e.toBlocks p := by
  rw [cutEdges_eq] at member
  obtain ⟨e, cut, rfl⟩ := List.mem_map.mp member
  exact ⟨e, (List.mem_filter.mp cut).1, rfl⟩

theorem length_weights_cutEdges {g : Hypergraph α} (wellFormed : g.WellFormed) {p : Partition} :
    ∀ d ∈ g.cutEdges p, d.weights.length = g.edgeDim := by
  intro d member
  obtain ⟨e, present, rfl⟩ := mem_cutEdges member
  exact (wellFormed.edges e present).weights

variable [Zero α] [Add α]

theorem cut_ok {g : Hypergraph α} (wellFormed : g.WellFormed) {p : Partition}
    (length : p.length = g.nodeCount) :
    g.cut p = .ok (Weight.sumOf g.edgeDim ((g.cutEdges p).map Edge.weights)) := by
  unfold cut
  rw [bind_ok]
  refine ⟨(), checkPartition_ok.mpr length, ?_⟩
  rw [← weights_cutEdges]
  exact Weight.sum_ok (List.forall_mem_map.mpr (length_weights_cutEdges wellFormed))

/-! ### The cut by block -/

omit [Zero α] [Add α] in
theorem filter_entries {edges : List (Edge α)} (increasing : ∀ d ∈ edges, d.members.Pairwise (· < ·))
    (b : NodeId) :
    ((edges.flatMap fun d => d.members.map (·, d.weights)).filter (·.1 = b)).map Prod.snd =
      (edges.filter (b ∈ ·.members)).map Edge.weights := by
  induction edges with
  | nil => rfl
  | cons d edges ih =>
    obtain ⟨first, others⟩ := List.forall_mem_cons.mp increasing
    have own : ((d.members.map (·, d.weights)).filter (·.1 = b)).map Prod.snd =
        if b ∈ d.members then [d.weights] else [] := by
      rw [List.filter_map, List.map_map]
      have nodup : d.members.Nodup := first.imp Nat.ne_of_lt
      have once : d.members.count b = if b ∈ d.members then 1 else 0 := nodup.count
      have selected : d.members.filter ((fun e : NodeId × List α => decide (e.1 = b)) ∘ (·, d.weights)) =
          List.replicate (d.members.count b) b := List.filter_eq b
      rw [selected, once]
      split <;> rfl
    rw [List.flatMap_cons, List.filter_append, List.map_append, ih others, own]
    by_cases touched : b ∈ d.members
    · rw [if_pos touched, List.filter_cons_of_pos (by simpa using touched)]
      rfl
    · rw [if_neg touched, List.filter_cons_of_neg (by simpa using touched)]
      rfl

def touching (dim : Nat) (edges : List (Edge α)) (b : BlockId) : List α :=
  Weight.sumOf dim ((edges.filter (b ∈ ·.members)).map Edge.weights)

theorem blockCuts_ok {g : Hypergraph α} (wellFormed : g.WellFormed) {p : Partition}
    (length : p.length = g.nodeCount) :
    g.blockCuts p =
      .ok ((List.range p.blockCount).map (touching g.edgeDim (g.cutEdges p))) := by
  have start : List.replicate p.blockCount (Weight.zeros g.edgeDim : List α) =
      (List.range p.blockCount).map fun _ => Weight.zeros g.edgeDim := by
    rw [List.map_const', List.length_range]
  have increasing : ∀ d ∈ g.cutEdges p, d.members.Pairwise (· < ·) := by
    intro d member
    obtain ⟨e, -, rfl⟩ := mem_cutEdges member
    exact Ordered.increasing_ofList _
  have lengths := length_weights_cutEdges wellFormed (p := p)
  have loop : (g.edges.filter (·.isCut p)).foldlM
      (fun sizes e => (e.blocks p).foldlM (fun sizes b => addAt sizes b e.weights) sizes)
      (List.replicate p.blockCount (Weight.zeros g.edgeDim)) =
        ((g.cutEdges p).flatMap fun d => d.members.map (·, d.weights)).foldlM
          (fun sizes e => addAt sizes e.1 e.2)
          ((List.range p.blockCount).map fun _ => Weight.zeros g.edgeDim) := by
    rw [foldlM_flatMap, cutEdges_eq, List.foldlM_map, start]
    simp only [List.foldlM_map]
    rfl
  unfold blockCuts
  rw [bind_ok]
  refine ⟨(), checkPartition_ok.mpr length, ?_⟩
  rw [loop, foldlM_addAt (fun _ => Weight.length_zeros _)]
  · refine congrArg Except.ok (List.map_congr_left fun b _ => ?_)
    rw [filter_entries increasing]
    rfl
  · intro e member
    obtain ⟨d, present, written⟩ := List.mem_flatMap.mp member
    obtain ⟨_, -, rfl⟩ := List.mem_map.mp written
    exact lengths d present

theorem touching_of_unused {g : Hypergraph α} {p : Partition} {b : BlockId}
    (unused : some b ∉ p) :
    touching g.edgeDim (g.cutEdges p) b = Weight.zeros g.edgeDim := by
  have none : (g.cutEdges p).filter (b ∈ ·.members) = [] := by
    apply List.filter_eq_nil_iff.mpr
    intro d member touched
    obtain ⟨e, -, rfl⟩ := mem_cutEdges member
    obtain ⟨n, -, held⟩ := Edge.mem_imageAlong.mp (of_decide_eq_true touched)
    exact unused (Partition.mem_of_block? held)
  rw [touching, none]
  rfl

theorem getD_blockCuts {g : Hypergraph α} {p : Partition} (b : BlockId) :
    ((List.range p.blockCount).map (touching g.edgeDim (g.cutEdges p)))[b]?.getD
      (Weight.zeros g.edgeDim) = touching g.edgeDim (g.cutEdges p) b :=
  getD_table (fun _ beyond => touching_of_unused (Partition.unused_of_le beyond)) b

end Hypergraph
end Multilevel
