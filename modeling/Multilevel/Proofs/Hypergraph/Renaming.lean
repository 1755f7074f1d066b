import Mathlib.Data.Set.Function
import Multilevel.Proofs.Hypergraph.Balance
import Multilevel.Proofs.Hypergraph.Metrics

/-!
# Names of blocks

Metrics ask of two members only whether they are in the same block. So blocks can be given other
names, and what is measured goes along with them, as long as no two blocks get one name. Where they
do, or where nodes leave their blocks, fewer edges are cut.
-/
namespace Multilevel

open Weight

variable {α : Type} {f : BlockId → BlockId} {nodes : List NodeId} {p q : Partition} {b : BlockId}
  {n : NodeId}

/-! ### Renamed and unassigned -/

namespace Partition

def rename (f : BlockId → BlockId) (p : Partition) : Partition := p.map (Option.map f)

/-- Some nodes leave their blocks. -/
def unassign (nodes : List NodeId) (p : Partition) : Partition :=
  p.mapIdx fun n block => if n ∈ nodes then none else block

theorem block?_rename : (p.rename f).block? n = (p.block? n).map f := by
  rw [block?, block?, rename, List.getElem?_map]
  cases p[n]? <;> rfl

theorem block?_unassign : (p.unassign nodes).block? n = if n ∈ nodes then none else p.block? n := by
  rw [block?, block?, unassign, List.getElem?_mapIdx]
  cases p[n]? with
  | none => simp
  | some block => rfl

theorem mem_rename {c : BlockId} : some c ∈ p.rename f ↔ ∃ b, some b ∈ p ∧ f b = c := by
  simp [rename]

/-- No two blocks in use get one name. -/
def KeepsApart (f : BlockId → BlockId) (p : Partition) : Prop := Set.InjOn f {b | some b ∈ p}

theorem keepsApart_iff :
    p.KeepsApart f ↔ ∀ a ∈ p, ∀ b ∈ p, a.map f = b.map f → a = b := by
  constructor
  · intro apart a left b right same
    cases a with
    | none => exact (Option.map_eq_none_iff.mp same.symm).symm
    | some a =>
      obtain ⟨b, rfl, moved⟩ := Option.map_eq_some_iff.mp same.symm
      exact congrArg some (apart left right moved.symm)
  · exact fun apart a left b right same =>
      Option.some.inj (apart (some a) left (some b) right (congrArg some same))

instance decidableKeepsApart (f : BlockId → BlockId) (p : Partition) :
    Decidable (p.KeepsApart f) :=
  decidable_of_iff _ keepsApart_iff.symm

end Partition

namespace Edge

theorem assigned_rename (e : Edge α) : e.assigned (p.rename f) = (e.assigned p).map f := by
  rw [assigned, assigned, List.map_filterMap]
  exact List.filterMap_congr fun n _ => Partition.block?_rename

theorem assigned_unassign_subset (e : Edge α) : e.assigned (p.unassign nodes) ⊆ e.assigned p := by
  intro b touched
  obtain ⟨n, spans, held⟩ := mem_assigned.mp touched
  rw [Partition.block?_unassign] at held
  split at held
  · cases held
  · exact mem_assigned.mpr ⟨n, spans, held⟩

theorem Cut.mono {e : Edge α} (fewer : e.assigned q ⊆ e.assigned p) (cut : e.Cut q) : e.Cut p := by
  obtain ⟨a, left, b, right, different⟩ := cut
  exact ⟨a, fewer left, b, fewer right, different⟩

theorem Cut.of_rename {e : Edge α} (cut : e.Cut (p.rename f)) : e.Cut p := by
  obtain ⟨_, left, _, right, different⟩ := cut
  rw [assigned_rename] at left right
  obtain ⟨a, first, rfl⟩ := List.mem_map.mp left
  obtain ⟨b, second, rfl⟩ := List.mem_map.mp right
  exact ⟨a, first, b, second, ne_of_apply_ne f different⟩

theorem mem_assigned_rename (apart : p.KeepsApart f) (used : some b ∈ p) {e : Edge α} :
    f b ∈ e.assigned (p.rename f) ↔ b ∈ e.assigned p := by
  rw [assigned_rename, List.mem_map]
  constructor
  · intro ⟨a, touched, same⟩
    exact apart (used_of_assigned touched) used same ▸ touched
  · exact fun touched => ⟨b, touched, rfl⟩

theorem cut_rename (apart : p.KeepsApart f) {e : Edge α} : e.Cut (p.rename f) ↔ e.Cut p := by
  refine ⟨Cut.of_rename, ?_⟩
  intro ⟨a, left, b, right, different⟩
  have first := (mem_assigned_rename apart (used_of_assigned left)).mpr left
  have second := (mem_assigned_rename apart (used_of_assigned right)).mpr right
  exact ⟨f a, first, f b, second, fun same =>
    different (apart (used_of_assigned left) (used_of_assigned right) same)⟩

end Edge

namespace Hypergraph

variable {g : Hypergraph α}

/-! ### The edges that are cut -/

theorem edgesCut_rename (apart : p.KeepsApart f) : g.edgesCut (p.rename f) = g.edgesCut p :=
  List.filter_congr fun _ _ => decide_eq_decide.mpr (Edge.cut_rename apart)

/-- Every edge that is cut under the first partition is cut under the second. -/
def CutsWithin (g : Hypergraph α) (q p : Partition) : Prop :=
  ∀ e < g.edgeCount, ∃ first second : Bool, g.isCutEdge e q = .ok first ∧
    g.isCutEdge e p = .ok second ∧ (first = true → second = true)

theorem cutsWithin (fits : q.length = g.nodeCount) (length : p.length = g.nodeCount)
    (cut : ∀ e ∈ g.edges, e.Cut q → e.Cut p) : g.CutsWithin q p := by
  intro e known
  have read : g.edges[e]? = some g.edges[e] := List.getElem?_eq_getElem known
  refine ⟨_, _, isCutEdge_eq fits read, isCutEdge_eq length read, ?_⟩
  simpa only [decide_eq_true_eq] using cut _ (List.getElem_mem known)

/-! ### Entries by block -/

/-- Entries for blocks that go along with the blocks. Numbers that no block has get zeros. -/
structure Follows (f : BlockId → BlockId) (p : Partition) (dim : Nat) [Zero α]
    (entries renamed : List (List α)) : Prop where
  used : ∀ b : BlockId, some b ∈ p → ∃ entry, entries[b]? = some entry ∧ renamed[f b]? = some entry
  unused : ∀ (b : BlockId) entry, entries[b]? = some entry → some b ∉ p → entry = zeros dim
  others : ∀ (c : BlockId) entry, renamed[c]? = some entry → (∀ b, some b ∈ p → f b ≠ c) →
    entry = zeros dim

variable [Zero α]

theorem follows_tables {dim : Nat} (table : Partition → BlockId → List α)
    (same : ∀ b, some b ∈ p → table (p.rename f) (f b) = table p b)
    (unused : ∀ (p : Partition) b, some b ∉ p → table p b = zeros dim) :
    Follows f p dim ((List.range p.blockCount).map (table p))
      ((List.range (p.rename f).blockCount).map (table (p.rename f))) where
  used b held := by
    have moved : some (f b) ∈ p.rename f := Partition.mem_rename.mpr ⟨b, held, rfl⟩
    exact ⟨table p b, getElem?_table.mpr ⟨Partition.lt_blockCount_of_mem held, rfl⟩,
      getElem?_table.mpr ⟨Partition.lt_blockCount_of_mem moved, (same b held).symm⟩⟩
  unused b entry read free := by
    rw [(getElem?_table.mp read).2, unused p b free]
  others c entry read free := by
    have fresh : some c ∉ p.rename f := fun member => by
      obtain ⟨b, held, moved⟩ := Partition.mem_rename.mp member
      exact free b held moved
    rw [(getElem?_table.mp read).2, unused _ c fresh]

variable [Add α]

/-! ### Cuts -/

theorem sumCut_rename (apart : p.KeepsApart f) (used : some b ∈ p) :
    g.sumCut (p.rename f) (f b ∈ ·.assigned (p.rename f)) = g.sumCut p (b ∈ ·.assigned p) := by
  rw [sumCut, sumCut, edgesCut_rename apart]
  refine congrArg (sumOf _ <| List.map _ ·) (List.filter_congr fun e _ => ?_)
  exact decide_eq_decide.mpr (Edge.mem_assigned_rename apart used)

theorem sumCut_of_unused (unused : some b ∉ p) :
    g.sumCut p (b ∈ ·.assigned p) = zeros g.edgeDim := by
  rw [← touching_eq, touching_of_unused unused]

/-! ### Weights -/

theorem weightIn_rename (apart : p.KeepsApart f) (used : some b ∈ p) :
    g.weightIn (p.rename f) (f b) = g.weightIn p b := by
  have block (n : NodeId) : (p.rename f).block? n = some (f b) ↔ p.block? n = some b := by
    rw [Partition.block?_rename, Option.map_eq_some_iff]
    constructor
    · intro ⟨a, held, same⟩
      rwa [apart (Partition.mem_of_block? held) used same] at held
    · exact fun held => ⟨b, held, rfl⟩
  rw [weightIn, weightIn, nodesIn, nodesIn]
  simp only [block]

/-! ### All metrics -/

/-- Whatever names blocks get, and whatever nodes leave them, no edge is cut that was not cut
before. Under names that keep blocks apart, the metrics are those of the blocks. -/
theorem Reachable.metrics_rename [One α] (reached : g.Reachable) (length : p.length = g.nodeCount)
    (f : BlockId → BlockId) :
    g.CutsWithin (p.rename f) p ∧ (∀ nodes, g.CutsWithin (p.unassign nodes) p) ∧
    (p.KeepsApart f →
      (∃ whole, g.cut p = .ok whole ∧ g.cut (p.rename f) = .ok whole) ∧
      (∀ n < g.nodeCount, ∃ own, g.cutAt p n = .ok own ∧ g.cutAt (p.rename f) n = .ok own) ∧
      (∃ cuts renamed, g.blockCuts p = .ok cuts ∧ g.blockCuts (p.rename f) = .ok renamed ∧
        Follows f p g.edgeDim cuts renamed) ∧
      (none ∉ p → ∃ weights renamed, g.blockWeights p = .ok weights ∧
        g.blockWeights (p.rename f) = .ok renamed ∧ Follows f p g.nodeDim weights renamed)) := by
  have wellFormed := reached.wellFormed
  have fits : (p.rename f).length = g.nodeCount := (List.length_map _).trans length
  refine ⟨cutsWithin fits length fun e _ => Edge.Cut.of_rename, fun nodes => ?_, fun apart => ?_⟩
  · exact cutsWithin (List.length_mapIdx.trans length) length fun e _ =>
      Edge.Cut.mono e.assigned_unassign_subset
  have edges := edgesCut_rename (g := g) apart
  refine ⟨⟨_, wellFormed.cut_eq length, ?_⟩, fun n known => ⟨_, wellFormed.cutAt_eq length known, ?_⟩,
    ⟨_, _, wellFormed.blockCuts_eq length, wellFormed.blockCuts_eq fits, ?_⟩, fun assigned => ?_⟩
  · rw [wellFormed.cut_eq fits, edges]
  · rw [wellFormed.cutAt_eq fits known, sumCut, sumCut, edges]
  · exact follows_tables (fun p b => g.sumCut p (b ∈ ·.assigned p))
      (fun b => sumCut_rename apart) fun p b => sumCut_of_unused
  · have renamed : none ∉ p.rename f := by simpa [Partition.rename] using assigned
    exact ⟨_, _, blockWeights_ok wellFormed length assigned, blockWeights_ok wellFormed fits renamed,
      follows_tables g.weightIn (fun b => weightIn_rename apart)
        fun p b => weightIn_of_unused⟩

/-- Halving numbers does not keep all blocks apart, but it does keep blocks 3, 1 and 5 apart: they
get the numbers 1, 0 and 2. -/
theorem metrics_rename_kite :
    Partition.rename (· / 2) [some 3, some 3, some 1, some 5] = [some 1, some 1, some 0, some 2] ∧
    Partition.KeepsApart (· / 2) [some 3, some 3, some 1, some 5] ∧
    kite.cut [some 1, some 1, some 0, some 2] = .ok [31 / 30] ∧
    kite.cut [some 3, some 3, some 1, some 5] = .ok [31 / 30] ∧
    kite.blockWeights [some 1, some 1, some 0, some 2] = .ok [[1], [2], [1]] ∧
    kite.blockWeights [some 3, some 3, some 1, some 5] = .ok [[0], [1], [0], [2], [0], [1]] ∧
    Follows (· / 2) [some 3, some 3, some 1, some 5] 1
      ([[0], [1], [0], [2], [0], [1]] : List (List Rat)) [[1], [2], [1]] := by
  have renamed : Partition.rename (· / 2) [some 3, some 3, some 1, some 5] =
      [some 1, some 1, some 0, some 2] := rfl
  have apart : Partition.KeepsApart (· / 2) [some 3, some 3, some 1, some 5] := by decide
  obtain ⟨-, -, measured⟩ := Reachable.metrics_rename (p := [some 3, some 3, some 1, some 5])
    reachable_kite rfl (· / 2)
  obtain ⟨⟨whole, before, after⟩, -, -, weighed⟩ := measured apart
  obtain ⟨weights, weightsAfter, known, knownAfter, follows⟩ := weighed (by decide)
  rw [renamed] at after knownAfter
  obtain rfl : [31 / 30] = whole := Except.ok.inj (Eq.trans (by decide +kernel) before)
  obtain rfl : [[0], [1], [0], [2], [0], [1]] = weights :=
    Except.ok.inj (Eq.trans (by decide +kernel) known)
  obtain rfl : [[1], [2], [1]] = weightsAfter :=
    Except.ok.inj (Eq.trans (by decide +kernel) knownAfter)
  exact ⟨renamed, apart, after, before, knownAfter, known, follows⟩

end Hypergraph
end Multilevel
