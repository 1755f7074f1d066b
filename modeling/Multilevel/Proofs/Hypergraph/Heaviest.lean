import Multilevel.Proofs.Hypergraph.Queries
import Multilevel.Proofs.Hypergraph.Reachable
import Multilevel.Proofs.Sample

/-!
# The heaviest nodes

Dimension by dimension, the maximum of the node weights is the largest of them and zero, since it
is taken from zero upwards (`maxNodeWeight_eq`). Where all weights are negative that is more than
any node weighs. An overview takes the maximum of the weights alone (`overview_heaviest`).
-/
namespace Multilevel

variable {α : Type} [LinearOrder α]

/-- Vectors of one length have in each dimension the maximum of their entries there. -/
theorem foldl_larger {start : List α} {vectors : List (List α)}
    (lengths : ∀ v ∈ vectors, v.length = start.length) :
    vectors.foldl (List.zipWith larger) start =
      start.mapIdx fun d a => (vectors.filterMap (·[d]?)).foldl max a := by
  induction vectors generalizing start with
  | nil => exact List.ext_getElem (by simp) fun d _ _ => by simp
  | cons v vectors ih =>
    obtain ⟨first, others⟩ := List.forall_mem_cons.mp lengths
    have kept : (List.zipWith larger start v).length = start.length := by
      rw [List.length_zipWith, first, Nat.min_self]
    rw [List.foldl_cons, ih (by rw [kept]; exact others)]
    refine List.ext_getElem (by simp [first]) fun d _ below => ?_
    have inside : d < v.length := by simpa [first] using below
    have column : (v :: vectors).filterMap (·[d]?) = v[d] :: vectors.filterMap (·[d]?) :=
      List.filterMap_cons_some (List.getElem?_eq_getElem inside)
    rw [List.getElem_mapIdx, List.getElem_mapIdx, List.getElem_zipWith, larger_eq_max, column,
      List.foldl_cons]

theorem Overview.greatest_spread (histograms : Bool) (values : List Rat) :
    (Overview.spread histograms values).greatest = Sample.greatest values := by
  cases histograms <;> rfl

namespace Hypergraph

variable {g h : Hypergraph α} {d : Nat} {m : α}

/-- What a node weighs in a dimension and no node exceeds there. -/
structure Heaviest (g : Hypergraph α) (d : Nat) (m : α) : Prop where
  bound : ∀ node ∈ g.nodes, ∃ w, node.weights[d]? = some w ∧ w ≤ m
  attained : ∃ node ∈ g.nodes, node.weights[d]? = some m

theorem Heaviest.le (heaviest : g.Heaviest d m) {node : Node α} (present : node ∈ g.nodes) {w : α}
    (read : node.weights[d]? = some w) : w ≤ m := by
  obtain ⟨v, again, bound⟩ := heaviest.bound node present
  obtain rfl := Option.some.inj (read.symm.trans again)
  exact bound

def weightsIn (g : Hypergraph α) (d : Nat) : List α := g.nodes.filterMap (·.weights[d]?)

omit [LinearOrder α] in
theorem mem_weightsIn {w : α} :
    w ∈ g.weightsIn d ↔ ∃ node ∈ g.nodes, node.weights[d]? = some w := List.mem_filterMap

omit [LinearOrder α] in
theorem weightsIn_perm (same : (h.nodes.map Node.weights).Perm (g.nodes.map Node.weights))
    (d : Nat) : (h.weightsIn d).Perm (g.weightsIn d) := by
  have columns := same.filterMap (·[d]?)
  rwa [List.filterMap_map, List.filterMap_map] at columns

omit [LinearOrder α] in
theorem WellFormed.nodeDim_of_perm (wellFormed : g.WellFormed) (other : h.WellFormed)
    (nonempty : g.nodes ≠ [])
    (same : (h.nodes.map Node.weights).Perm (g.nodes.map Node.weights)) :
    h.nodeDim = g.nodeDim := by
  obtain ⟨node, present⟩ := List.exists_mem_of_ne_nil _ nonempty
  obtain ⟨twin, listed, weights⟩ :=
    List.mem_map.mp (same.mem_iff.mpr (List.mem_map_of_mem present))
  rw [← other.nodeWeights twin listed, weights, wellFormed.nodeWeights node present]

omit [LinearOrder α] in
theorem WellFormed.getElem?_weights (wellFormed : g.WellFormed) (inside : d < g.nodeDim)
    {node : Node α} (present : node ∈ g.nodes) :
    ∃ w, node.weights[d]? = some w ∧ w ∈ g.weightsIn d := by
  have below : d < node.weights.length := wellFormed.nodeWeights node present ▸ inside
  have read : node.weights[d]? = some node.weights[d] := List.getElem?_eq_getElem below
  exact ⟨_, read, mem_weightsIn.mpr ⟨node, present, read⟩⟩

theorem WellFormed.heaviest_iff (wellFormed : g.WellFormed) (inside : d < g.nodeDim) :
    g.Heaviest d m ↔ (g.weightsIn d).max? = some m := by
  rw [List.max?_eq_some_iff]
  constructor
  · intro heaviest
    refine ⟨mem_weightsIn.mpr heaviest.attained, fun w member => ?_⟩
    obtain ⟨node, present, read⟩ := mem_weightsIn.mp member
    exact heaviest.le present read
  · rintro ⟨member, bound⟩
    refine ⟨fun node present => ?_, mem_weightsIn.mp member⟩
    obtain ⟨w, read, listed⟩ := wellFormed.getElem?_weights inside present
    exact ⟨w, read, bound w listed⟩

theorem WellFormed.exists_heaviest (wellFormed : g.WellFormed) (nonempty : g.nodes ≠ [])
    (inside : d < g.nodeDim) : ∃ high, g.Heaviest d high := by
  obtain ⟨node, present⟩ := List.exists_mem_of_ne_nil _ nonempty
  obtain ⟨w, -, listed⟩ := wellFormed.getElem?_weights inside present
  obtain ⟨high, found⟩ := Option.ne_none_iff_exists'.mp
    (mt List.max?_eq_none_iff.mp (List.ne_nil_of_mem listed))
  exact ⟨high, (wellFormed.heaviest_iff inside).mpr found⟩

section
variable [Zero α]

theorem WellFormed.maxNodeWeight_eq (wellFormed : g.WellFormed) :
    g.maxNodeWeight = .ok ((List.range g.nodeDim).map fun d => (g.weightsIn d).foldl max 0) := by
  have lengths : ∀ v ∈ g.nodes.map Node.weights,
      v.length = (Weight.zeros g.nodeDim : List α).length := by
    rw [Weight.length_zeros]
    exact List.forall_mem_map.mpr wellFormed.nodeWeights
  rw [wellFormed.maxNodeWeight_ok, foldl_larger lengths]
  refine congrArg Except.ok (List.ext_getElem (by simp [Weight.zeros]) fun d _ _ => ?_)
  simp [Weight.zeros, weightsIn, List.filterMap_map]

theorem WellFormed.foldl_weightsIn (wellFormed : g.WellFormed) (inside : d < g.nodeDim)
    {high : α} (heaviest : g.Heaviest d high) : (g.weightsIn d).foldl max 0 = max 0 high := by
  rw [List.foldl_max, (wellFormed.heaviest_iff inside).mp heaviest, Option.getD_some]

/-- The larger of zero and the largest weight is the largest weight where some weight is not
negative, and only there. -/
theorem Heaviest.max_zero_iff {high : α} (heaviest : g.Heaviest d high) :
    g.Heaviest d (max 0 high) ↔ ∃ node ∈ g.nodes, ∃ w, node.weights[d]? = some w ∧ 0 ≤ w := by
  constructor
  · intro raised
    obtain ⟨node, present, read⟩ := raised.attained
    exact ⟨node, present, _, read, le_max_left 0 high⟩
  · rintro ⟨node, present, w, read, positive⟩
    rwa [max_eq_right (positive.trans (heaviest.le present read))]

/-- In each dimension the maximum of the node weights is no less than any of them. It is the largest
of them if some weight is not negative there, and only then: it is the larger of that one and zero.
The order of the nodes does not matter. -/
theorem Reachable.maxNodeWeight_heaviest [One α] (reached : g.Reachable) (nonempty : g.nodes ≠ []) :
    ∃ top, g.maxNodeWeight = .ok top ∧ top.length = g.nodeDim ∧
      (∀ d m, top[d]? = some m →
        (∀ node ∈ g.nodes, ∃ w, node.weights[d]? = some w ∧ w ≤ m) ∧
        (g.Heaviest d m ↔ ∃ node ∈ g.nodes, ∃ w, node.weights[d]? = some w ∧ 0 ≤ w) ∧
        ∃ high, g.Heaviest d high ∧ m = max 0 high) ∧
      ∀ h : Hypergraph α, h.Reachable →
        (h.nodes.map Node.weights).Perm (g.nodes.map Node.weights) → h.maxNodeWeight = .ok top := by
  have wellFormed := reached.wellFormed
  refine ⟨_, wellFormed.maxNodeWeight_eq, by simp, fun d m read => ?_, fun h other same => ?_⟩
  · obtain ⟨inside, rfl⟩ := getElem?_table.mp read
    obtain ⟨high, heaviest⟩ := wellFormed.exists_heaviest nonempty inside
    rw [wellFormed.foldl_weightsIn inside heaviest]
    refine ⟨fun node present => ?_, heaviest.max_zero_iff, high, heaviest, rfl⟩
    obtain ⟨w, found, bound⟩ := heaviest.bound node present
    exact ⟨w, found, le_max_of_le_right bound⟩
  · rw [other.wellFormed.maxNodeWeight_eq,
      wellFormed.nodeDim_of_perm other.wellFormed nonempty same]
    exact congrArg Except.ok (List.map_congr_left fun d _ => (weightsIn_perm same d).foldl_op_eq)

end

def scattered (weights : List (List Rat)) : Hypergraph Rat := ofParts ⟨[1, 1], [1]⟩ weights []

theorem reachable_scattered {weights : List (List Rat)} (lengths : ∀ w ∈ weights, w.length = 2) :
    (scattered weights).Reachable := by
  have fits : Fits ⟨[1, 1], [1]⟩ weights [] := ⟨by simp, by simp, lengths, by simp⟩
  exact fits.wellFormed.reachable

/-- The second weights are negative, and their maximum is not among them. -/
theorem maxNodeWeight_heaviest_scattered :
    let g := scattered [[-5, -3], [2, -1]]
    let h := scattered [[2, -1], [-5, -3]]
    g.Reachable ∧ g.nodes ≠ [] ∧ g.maxNodeWeight = .ok [2, 0] ∧ g.Heaviest 0 2 ∧
      ¬ g.Heaviest 1 0 ∧ h.Reachable ∧ h.maxNodeWeight = .ok [2, 0] := by
  intro g h
  have reached : g.Reachable := reachable_scattered (by decide)
  have turned : h.Reachable := reachable_scattered (by decide)
  obtain ⟨top, made, -, each, anyOrder⟩ := Reachable.maxNodeWeight_heaviest reached (by decide)
  obtain rfl : [2, 0] = top := Except.ok.inj (Eq.trans (by decide +kernel) made)
  obtain ⟨-, mixed, -⟩ := each 0 2 rfl
  obtain ⟨-, negative, -⟩ := each 1 0 rfl
  refine ⟨reached, by decide, made, mixed.mpr ?_, mt negative.mp ?_, turned, anyOrder h turned ?_⟩
  · exact ⟨⟨[2, -1], []⟩, by decide +kernel, 2, rfl, by decide⟩
  · decide +kernel
  · exact List.Perm.swap ..

/-- Zero is more than any node weighs in the second dimension, where the largest weight is `-1`. -/
theorem maxNodeWeight_unattained_scattered :
    let g := scattered [[-5, -3], [2, -1]]
    g.Reachable ∧ g.nodes ≠ [] ∧ g.maxNodeWeight = .ok [2, 0] ∧ g.Heaviest 1 (-1) ∧
      ∀ node ∈ g.nodes, node.weights[1]? ≠ some 0 := by
  intro g
  have largest : g.Heaviest 1 (-1) := ⟨by decide +kernel, by decide +kernel⟩
  exact ⟨reachable_scattered (by decide), by decide, by decide +kernel, largest,
    by decide +kernel⟩

/-! ### Overviews -/

/-- An overview names the largest weight of a node in each dimension, whatever its sign. -/
theorem WellFormed.overview_heaviest {g : Hypergraph Rat} (wellFormed : g.WellFormed)
    (nonempty : g.nodes ≠ []) {histograms : Bool} {o : Overview Rat}
    (made : Overview.of g histograms = .ok o) :
    o.nodeWeights.length = g.nodeDim ∧
      ∀ d s, o.nodeWeights[d]? = some s → g.Heaviest d s.greatest := by
  obtain ⟨costs, -, made⟩ := bind_ok.mp made
  obtain ⟨edges, -, made⟩ := bind_ok.mp made
  obtain ⟨nodes, -, made⟩ := bind_ok.mp made
  obtain ⟨cost, -, made⟩ := bind_ok.mp made
  obtain rfl := pure_ok.mp made
  refine ⟨by simp, fun d s read => ?_⟩
  obtain ⟨inside, rfl⟩ := getElem?_table.mp read
  obtain ⟨high, heaviest⟩ := wellFormed.exists_heaviest nonempty inside
  have largest := (wellFormed.heaviest_iff inside).mp heaviest
  have same : Sample.greatest (g.weightsIn d) = high := by
    rw [Sample.greatest_eq, largest, Option.getD_some]
  rw [Overview.greatest_spread]
  exact same ▸ heaviest

end Hypergraph
end Multilevel
