import Multilevel.Proofs.Distinct
import Multilevel.Proofs.Exact
import Multilevel.Proofs.Hypergraph.Construction

/-!
# Merged hyperedges

Merging keeps one edge for each set of members, in the order in which the sets are met, and gives
it the weights of all edges with these members, added from the first one on (`mergeParallel_ok`).
The merged edges of a well-formed graph fit its nodes, so it can always be compressed.
-/
namespace Multilevel

variable {α : Type}

namespace Weight

variable [Add α]

/-- The sum of vectors, which starts with the first of them. -/
def addUp : List (List α) → List α
  | [] => []
  | first :: rest => addAll first rest

theorem addUp_concat {vectors : List (List α)} (nonempty : vectors ≠ []) (w : List α) :
    addUp (vectors ++ [w]) = List.zipWith (· + ·) (addUp vectors) w := by
  cases vectors with
  | nil => exact absurd rfl nonempty
  | cons first rest => exact addAll_append first rest [w]

theorem length_addUp {dim : Nat} {vectors : List (List α)} (nonempty : vectors ≠ [])
    (lengths : ∀ v ∈ vectors, v.length = dim) : (addUp vectors).length = dim := by
  cases vectors with
  | nil => exact absurd rfl nonempty
  | cons first rest =>
    obtain ⟨own, others⟩ := List.forall_mem_cons.mp lengths
    exact (length_addAll fun v member => (others v member).trans own.symm).trans own

/-- Added without rounding, vectors have the same sum from the first one as from zeros. -/
theorem addUp_eq_sumOf [Zero α] (exact : ExactAddition α) {dim : Nat} {vectors : List (List α)}
    (nonempty : vectors ≠ []) (lengths : ∀ v ∈ vectors, v.length = dim) :
    addUp vectors = sumOf dim vectors := by
  cases vectors with
  | nil => exact absurd rfl nonempty
  | cons first rest =>
    have own := lengths first List.mem_cons_self
    change addAll first rest =
      addAll (List.zipWith (· + ·) (zeros dim) first) rest
    rw [exact.zeros_zipWith own]

end Weight

/-! ### Parallel edges -/

namespace Hypergraph

open Weight

def parallel (edges : List (Edge α)) (members : List NodeId) : List (List α) :=
  (edges.filter fun e => e.members = members).map Edge.weights

theorem parallel_concat (edges : List (Edge α)) (e : Edge α) (members : List NodeId) :
    parallel (edges ++ [e]) members =
      parallel edges members ++ if e.members = members then [e.weights] else [] := by
  by_cases same : e.members = members <;> simp [parallel, same]

theorem parallel_eq_nil {edges : List (Edge α)} {members : List NodeId} :
    parallel edges members = [] ↔ members ∉ edges.map Edge.members := by
  simp [parallel, List.filter_eq_nil_iff]

theorem length_of_mem_parallel {edges : List (Edge α)} {dim : Nat}
    (lengths : ∀ e ∈ edges, e.weights.length = dim) (members : List NodeId) :
    ∀ w ∈ parallel edges members, w.length = dim :=
  List.forall_mem_map.mpr fun e member => lengths e (List.mem_filter.mp member).1

variable [Add α]

/-! ### Merging -/

def merged (edges : List (Edge α)) : List (Edge α) :=
  (edges.map Edge.members).eraseDups.map fun m => ⟨addUp (parallel edges m), m⟩

theorem members_merged (edges : List (Edge α)) :
    (merged edges).map Edge.members = (edges.map Edge.members).eraseDups := by
  rw [merged, List.map_map]
  exact List.map_id' _

theorem merged_congr {edges others : List (Edge α)}
    (same : (edges.map Edge.members).eraseDups = (others.map Edge.members).eraseDups)
    (weights : ∀ m, m ∈ edges.map Edge.members → m ∈ others.map Edge.members →
      addUp (parallel edges m) = addUp (parallel others m)) :
    merged edges = merged others := by
  rw [merged, merged, same]
  refine List.map_congr_left fun m member => congrArg (Edge.mk · m) ?_
  exact weights m (List.mem_eraseDups.mp (same ▸ member)) (List.mem_eraseDups.mp member)

theorem length_weights_merged {edges : List (Edge α)} {dim : Nat}
    (lengths : ∀ e ∈ edges, e.weights.length = dim) :
    ∀ e ∈ merged edges, e.weights.length = dim := by
  refine List.forall_mem_map.mpr fun m member => ?_
  have met : parallel edges m ≠ [] := fun none =>
    parallel_eq_nil.mp none (List.mem_eraseDups.mp member)
  exact length_addUp met (length_of_mem_parallel lengths m)

theorem absorb_table {keys : List (List NodeId)} {table : List NodeId → List α} {e : Edge α}
    (once : keys.Nodup) (lengths : ∀ m ∈ keys, e.weights.length = (table m).length) :
    absorb e (keys.map fun m => ⟨table m, m⟩) = .ok (if e.members ∈ keys then
      keys.map fun m => ⟨if m = e.members then List.zipWith (· + ·) (table m) e.weights else table m, m⟩
      else keys.map (fun m => ⟨table m, m⟩) ++ [e]) := by
  induction keys with
  | nil => rfl
  | cons k keys ih =>
    obtain ⟨fresh, once⟩ := List.nodup_cons.mp once
    obtain ⟨own, others⟩ := List.forall_mem_cons.mp lengths
    rw [List.map_cons, absorb]
    by_cases same : k = e.members
    · subst same
      have untouched : keys.map (fun m => (⟨if m = e.members then
          List.zipWith (· + ·) (table m) e.weights else table m, m⟩ : Edge α)) =
            keys.map fun m => ⟨table m, m⟩ := by
        refine List.map_congr_left fun m member => ?_
        rw [if_neg (ne_of_mem_of_not_mem member fresh)]
      rw [if_pos rfl, if_pos List.mem_cons_self, List.map_cons, untouched, if_pos rfl,
        Weight.add_ok own]
      rfl
    · have inside : e.members ∈ k :: keys ↔ e.members ∈ keys := by simp [Ne.symm same]
      rw [if_neg same, ih once others]
      by_cases met : e.members ∈ keys
      · rw [if_pos met, if_pos (inside.mpr met), List.map_cons, if_neg same]
        rfl
      · rw [if_neg met, if_neg (mt inside.mp met)]
        rfl

theorem absorb_merged {edges : List (Edge α)} {e : Edge α}
    (lengths : ∀ d ∈ edges, d.weights.length = e.weights.length) :
    absorb e (merged edges) = .ok (merged (edges ++ [e])) := by
  have table : ∀ m ∈ (edges.map Edge.members).eraseDups,
      e.weights.length = (addUp (parallel edges m)).length := fun m member =>
    (length_weights_merged lengths _ (List.mem_map_of_mem member)).symm
  rw [merged, absorb_table (nodup_eraseDups _) table, merged, List.map_append, List.map_singleton,
    eraseDups_concat]
  simp only [List.mem_eraseDups]
  by_cases met : e.members ∈ edges.map Edge.members
  · rw [if_pos met, if_pos met]
    refine congrArg Except.ok (List.map_congr_left fun m member => ?_)
    rw [parallel_concat]
    by_cases same : m = e.members
    · have before : parallel edges m ≠ [] := fun none =>
        parallel_eq_nil.mp none (List.mem_eraseDups.mp member)
      rw [if_pos same, if_pos same.symm, addUp_concat before]
    · rw [if_neg same, if_neg (Ne.symm same), List.append_nil]
  · rw [if_neg met, if_neg met, List.map_append, List.map_singleton, parallel_concat, if_pos rfl,
      parallel_eq_nil.mpr met]
    have others : (edges.map Edge.members).eraseDups.map
        (fun m => (⟨addUp (parallel (edges ++ [e]) m), m⟩ : Edge α)) =
          (edges.map Edge.members).eraseDups.map fun m => ⟨addUp (parallel edges m), m⟩ := by
      refine List.map_congr_left fun m member => ?_
      have different : e.members ≠ m := fun same => met (same ▸ List.mem_eraseDups.mp member)
      rw [parallel_concat, if_neg different, List.append_nil]
    rw [others]
    rfl

theorem mergeParallel_ok {edges : List (Edge α)} {dim : Nat}
    (lengths : ∀ e ∈ edges, e.weights.length = dim) :
    mergeParallel edges = .ok (merged edges) := by
  induction edges using List.reverseRecOn with
  | nil => rfl
  | append_singleton edges e ih =>
    obtain ⟨before, last⟩ := List.forall_mem_append.mp lengths
    have own := last e List.mem_cons_self
    have start := ih before
    rw [mergeParallel] at start
    rw [mergeParallel, List.foldlM_append, start]
    change (absorb e (merged edges) >>= pure) = _
    rw [absorb_merged fun d member => (before d member).trans own.symm]
    rfl

/-! ### Merging before and after a change of members -/

section
variable (change : List NodeId → Option (List NodeId))

/-- An edge with changed members, or no edge. -/
def changed (e : Edge α) : Option (Edge α) := (change e.members).map fun m => ⟨e.weights, m⟩

omit [Add α] in
theorem members_filterMap_changed (edges : List (Edge α)) :
    (edges.filterMap (changed change)).map Edge.members =
      (edges.map Edge.members).filterMap change := by
  rw [List.map_filterMap, List.filterMap_map]
  refine List.filterMap_congr fun e _ => ?_
  simp [changed, Function.comp_def]

omit [Add α] in
theorem parallel_filterMap_changed (edges : List (Edge α)) (members : List NodeId) :
    parallel (edges.filterMap (changed change)) members =
      (edges.filter fun e => change e.members = some members).map Edge.weights := by
  unfold parallel
  induction edges with
  | nil => rfl
  | cons e edges ih =>
    cases moved : change e.members with
    | none =>
      rw [List.filterMap_cons_none (by simp [changed, moved]), ih,
        List.filter_cons_of_neg (by simp [moved])]
    | some m =>
      rw [List.filterMap_cons_some (show changed change e = some ⟨e.weights, m⟩ by
        simp [changed, moved])]
      by_cases same : m = members
      · rw [List.filter_cons_of_pos (by simpa using same),
          List.filter_cons_of_pos (by simp [moved, same]), List.map_cons, List.map_cons, ih]
      · rw [List.filter_cons_of_neg (by simpa using same),
          List.filter_cons_of_neg (by simp [moved, same]), ih]

/-- Merging first does not change which members there are, nor their order. -/
theorem members_merged_changed (edges : List (Edge α)) :
    (merged ((merged edges).filterMap (changed change))).map Edge.members =
      (merged (edges.filterMap (changed change))).map Edge.members := by
  rw [members_merged, members_merged, members_filterMap_changed, members_filterMap_changed,
    members_merged, eraseDups_filterMap]

theorem sumOf_parallel_merged [Zero α] (exact : ExactAddition α) {dim : Nat}
    {edges : List (Edge α)} (lengths : ∀ e ∈ edges, e.weights.length = dim)
    (members : List NodeId) :
    Weight.sumOf dim (parallel ((merged edges).filterMap (changed change)) members) =
      Weight.sumOf dim (parallel (edges.filterMap (changed change)) members) := by
  let keys := (edges.map Edge.members).eraseDups.filter fun m => change m = some members
  have once : keys.Nodup := (nodup_eraseDups _).filter _
  have groups : parallel ((merged edges).filterMap (changed change)) members =
      keys.map fun m => Weight.sumOf dim (parallel edges m) := by
    rw [parallel_filterMap_changed, merged, List.filter_map, List.map_map]
    refine List.map_congr_left fun m member => ?_
    have met : parallel edges m ≠ [] := fun none =>
      parallel_eq_nil.mp none (List.mem_eraseDups.mp (List.mem_filter.mp member).1)
    exact addUp_eq_sumOf exact met (length_of_mem_parallel lengths m)
  have all : (keys.flatMap (parallel edges)).Perm
      (parallel (edges.filterMap (changed change)) members) := by
    rw [parallel_filterMap_changed]
    have grouped := perm_groups Edge.members edges (fun e => change e.members = some members) once
      fun e present => by
        have listed : e.members ∈ (edges.map Edge.members).eraseDups :=
          List.mem_eraseDups.mpr (List.mem_map_of_mem present)
        simp [keys, List.mem_filter, listed]
    have weights := grouped.map Edge.weights
    rw [List.map_flatMap] at weights
    exact weights
  rw [groups, ← exact.sumOf_flatMap fun m _ => length_of_mem_parallel lengths m]
  exact exact.sumOf_perm all

/-- Edges whose members change can be merged before, where addition is exact. -/
theorem merged_merged_changed [Zero α] (exact : ExactAddition α) {dim : Nat}
    {edges : List (Edge α)} (lengths : ∀ e ∈ edges, e.weights.length = dim) :
    merged ((merged edges).filterMap (changed change)) =
      merged (edges.filterMap (changed change)) := by
  have same := members_merged_changed change edges
  rw [members_merged, members_merged] at same
  have kept (before : List (Edge α)) (sized : ∀ e ∈ before, e.weights.length = dim) :
      ∀ e ∈ before.filterMap (changed change), e.weights.length = dim := by
    intro e member
    obtain ⟨d, present, moved⟩ := List.mem_filterMap.mp member
    obtain ⟨m, -, rfl⟩ := Option.map_eq_some_iff.mp moved
    exact sized d present
  refine merged_congr same fun m first second => ?_
  have left := mt parallel_eq_nil.mp (not_not_intro first)
  have right := mt parallel_eq_nil.mp (not_not_intro second)
  rw [addUp_eq_sumOf exact left (length_of_mem_parallel (kept _ (length_weights_merged lengths)) m),
    addUp_eq_sumOf exact right (length_of_mem_parallel (kept _ lengths) m),
    sumOf_parallel_merged change exact lengths]

end

/-! ### Compressed graphs -/

def compression (g : Hypergraph α) : Hypergraph α :=
  .ofParts g.factors (g.nodes.map Node.weights) (merged g.edges)

theorem WellFormed.fits_merged {g : Hypergraph α} (wellFormed : g.WellFormed) :
    Fits g.factors (g.nodes.map Node.weights) (merged g.edges) := by
  refine { wellFormed.fits with edges := fun d member => ?_ }
  have weights := length_weights_merged (fun e present => (wellFormed.edges e present).weights) d
    member
  have listed : d.members ∈ (g.edges.map Edge.members).eraseDups := by
    rw [← members_merged]
    exact List.mem_map_of_mem member
  obtain ⟨e, present, same⟩ := List.mem_map.mp (List.mem_eraseDups.mp listed)
  have edge := wellFormed.edges e present
  rw [List.length_map]
  exact ⟨weights, same ▸ edge.increasing, same ▸ edge.spanning, same ▸ edge.known⟩

theorem compressed_eq {g : Hypergraph α} (wellFormed : g.WellFormed) :
    g.compressed = .ok g.compression := by
  have fits := wellFormed.fits_merged
  have canonical : (merged g.edges).map Edge.canonical = merged g.edges :=
    (List.map_congr_left fun e member => (fits.edges e member).canonical).trans (List.map_id' _)
  have parts : assemble g.factors (g.nodes.map Node.weights) (merged g.edges) =
      .ok g.compression := by
    rw [assemble_ok, canonical]
    exact ⟨fits, rfl⟩
  exact bind_ok.mpr ⟨_, mergeParallel_ok fun e present => (wellFormed.edges e present).weights,
    parts⟩

theorem compressed_ofParts {factors : Factors α} {weights : List (List α)} {edges : List (Edge α)}
    (wellFormed : (ofParts factors weights edges).WellFormed) :
    (ofParts factors weights edges).compressed = .ok (ofParts factors weights (merged edges)) := by
  rw [compressed_eq wellFormed, compression, weights_ofParts]
  rfl

theorem WellFormed.compression {g : Hypergraph α} (wellFormed : g.WellFormed) :
    g.compression.WellFormed :=
  wellFormed.fits_merged.wellFormed

end Hypergraph
end Multilevel
