import Multilevel.Proofs.Hypergraph.Metrics

namespace Multilevel

open Weight

variable {α : Type} {p q : Partition} {v : NodeId}

/-- Partitions that put all nodes but one into the same blocks. -/
def Partition.SameBeyond (p q : Partition) (v : NodeId) : Prop := ∀ n, n ≠ v → p[n]? = q[n]?

theorem Partition.SameBeyond.assigned_eq (same : p.SameBeyond q v) {e : Edge α}
    (beyond : v ∉ e.members) : e.assigned p = e.assigned q := by
  refine List.filterMap_congr fun n member => ?_
  rw [block?, block?, same n (ne_of_mem_of_not_mem member beyond)]

namespace Hypergraph

variable {g : Hypergraph α}

theorem edgesCut_beyond (same : p.SameBeyond q v) :
    (g.edgesCut p).filter (fun e => !decide (v ∈ e.members)) =
      (g.edgesCut q).filter fun e => !decide (v ∈ e.members) := by
  rw [edgesCut, edgesCut, List.filter_filter, List.filter_filter]
  refine List.filter_congr fun e _ => ?_
  by_cases spans : v ∈ e.members
  · simp [spans]
  · have cut : e.Cut p ↔ e.Cut q := by rw [Edge.Cut, Edge.Cut, same.assigned_eq spans]
    rw [decide_eq_decide.mpr cut]

section
variable [Zero α] [Add α]

theorem WellFormed.sum_edgesCut_at (wellFormed : g.WellFormed) (exact : ExactAddition α)
    (p : Partition) (v : NodeId) :
    sumOf g.edgeDim ((g.edgesCut p).map Edge.weights) =
      List.zipWith (· + ·) (g.sumCut p (v ∈ ·.members))
        (g.sumCut p fun e => !decide (v ∈ e.members)) :=
  exact.sumOf_filter wellFormed.weights_edgesCut fun e => v ∈ e.members

/-- A move changes the cut by as much as it changes the cut at the node that moves. -/
theorem Reachable.cut_move [One α] [Sub α] (reached : g.Reachable) (exact : ExactDifference α)
    (known : v < g.nodeCount) (before : p.length = g.nodeCount) (after : q.length = g.nodeCount)
    (same : p.SameBeyond q v) :
    ∃ cutBefore cutAfter atBefore atAfter change,
      g.cut p = .ok cutBefore ∧ g.cut q = .ok cutAfter ∧
      g.cutAt p v = .ok atBefore ∧ g.cutAt q v = .ok atAfter ∧ change.length = g.edgeDim ∧
      Weight.combine (· - ·) cutAfter cutBefore = .ok change ∧
      Weight.combine (· - ·) atAfter atBefore = .ok change := by
  have wellFormed := reached.wellFormed
  have beyond : g.sumCut p (fun e => !decide (v ∈ e.members)) =
      g.sumCut q fun e => !decide (v ∈ e.members) := by
    rw [sumCut, sumCut, edgesCut_beyond same]
  have lengths (r : Partition) (keep : Edge α → Bool) : (g.sumCut r keep).length = g.edgeDim :=
    wellFormed.length_sumCut keep
  refine ⟨_, _, _, _, _, wellFormed.cut_eq before, wellFormed.cut_eq after,
    wellFormed.cutAt_eq before known, wellFormed.cutAt_eq after known, ?_, ?_,
    if_pos ((lengths q _).trans (lengths p _).symm)⟩
  · rw [List.length_zipWith, lengths, lengths, Nat.min_self]
  · rw [wellFormed.sum_edgesCut_at exact.toExactAddition p v,
      wellFormed.sum_edgesCut_at exact.toExactAddition q v, beyond, combine,
      if_pos (by simp [lengths])]
    refine congrArg Except.ok (exact.zipWith_sub_add ?_ ?_) <;> rw [lengths, lengths]

end

/-- A node leaves its block, and the one edge that was cut at it is cut no more. -/
theorem cut_move_kite :
    Partition.SameBeyond [some 3, none, some 0, some 0] [some 3, none, none, some 0] 2 ∧
    kite.cut [some 3, none, some 0, some 0] = .ok [7 / 10] ∧
    kite.cut [some 3, none, none, some 0] = .ok [1 / 5] ∧
    ∃ atBefore atAfter change, kite.cutAt [some 3, none, some 0, some 0] 2 = .ok atBefore ∧
      kite.cutAt [some 3, none, none, some 0] 2 = .ok atAfter ∧
      Weight.combine (· - ·) [1 / 5] [7 / 10] = .ok change ∧
      Weight.combine (· - ·) atAfter atBefore = .ok change := by
  have same : Partition.SameBeyond [some 3, none, some 0, some 0] [some 3, none, none, some 0] 2 := by
    rintro (_ | _ | _ | n) other
    · rfl
    · rfl
    · exact absurd rfl other
    · rfl
  obtain ⟨_, _, atBefore, atAfter, change, before, after, left, right, -, whole, own⟩ :=
    Reachable.cut_move reachable_kite exactDifference_rat (by decide) rfl rfl same
  obtain rfl : [7 / 10] = _ := Except.ok.inj (Eq.trans (by decide +kernel) before)
  obtain rfl : [1 / 5] = _ := Except.ok.inj (Eq.trans (by decide +kernel) after)
  exact ⟨same, before, after, atBefore, atAfter, change, left, right, whole, own⟩

end Hypergraph
end Multilevel
