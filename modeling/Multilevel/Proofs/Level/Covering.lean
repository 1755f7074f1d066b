import Mathlib.Algebra.BigOperators.Group.List.Basic
import Multilevel.Proofs.Level.Balance
import Multilevel.Proofs.Level.Compression
import Multilevel.Proofs.Level.Conservation

namespace Multilevel.Level

variable {α : Type} {g : Hypergraph α} {clusters : Clustering}
  (once : clusters.flatten.Perm (List.range g.nodeCount))
include once

theorem accepts_of_perm : (ofGraph g).Accepts clusters :=
  accepts_ofGraph.mpr ⟨fun _ member => List.mem_range.mp (once.mem_iff.mp member),
    once.nodup_iff.mpr List.nodup_range⟩

theorem covers_of_perm : clusters.Covers g.nodeCount :=
  fun _ known => once.mem_iff.mpr (List.mem_range.mpr known)

theorem length_le_of_perm (nonempty : [] ∉ clusters) : clusters.length ≤ g.nodeCount := by
  have sum : (clusters.map List.length).sum = g.nodeCount := by
    rw [← List.length_flatten, once.length_eq, List.length_range]
  rw [← sum, ← List.length_map List.length]
  refine List.length_le_sum_of_one_le _ (List.forall_mem_map.mpr fun members present => ?_)
  exact List.length_pos_iff.mpr fun empty => nonempty (empty ▸ present)

variable [Zero α] [Add α] (wellFormed : g.WellFormed)
include wellFormed

theorem coarsen_of_perm (options : CoarsenOptions) :
    (ofGraph g).coarsen clusters options = .ok ((ofGraph g).coarsened clusters {}) := by
  have accepts := accepts_of_perm once
  have root : (ofGraph g).graph.WellFormed := wellFormed
  rw [accepts.coarsen_eq root, coarsened_of_covers root (covers_of_perm once)]

theorem totalNodeWeight_of_perm (exact : ExactAddition α) :
    ((ofGraph g).coarsened clusters {}).graph.totalNodeWeight = g.totalNodeWeight := by
  have accepts := accepts_of_perm once
  have root : (ofGraph g).graph.WellFormed := wellFormed
  have child : ((ofGraph g).coarsened clusters {}).graph.WellFormed :=
    (accepts.wellFormed wellFormed).graph
  have same :=
    calc ((ofGraph g).coarsened clusters {}).together (List.range clusters.length)
        = (ofGraph g).together ((List.range clusters.length).flatMap clusters.members) :=
          (together_compose exact root accepts.toPlaces fun _ => List.mem_range.mp).symm
      _ = (ofGraph g).together clusters.flatten := by rw [Clustering.flatten_eq_members]
      _ = (ofGraph g).together (List.range g.nodeCount) := exact.sumOf_perm (once.map _)
  rw [Hypergraph.totalNodeWeight_eq child, Hypergraph.totalNodeWeight_eq wellFormed,
    nodeCount_coarsened]
  exact congrArg Except.ok same

end Multilevel.Level
