import Multilevel.Proofs.Distinct
import Multilevel.Proofs.Hypergraph.Quotient
import Multilevel.Proofs.Level.Owner
import Multilevel.Proofs.Level.Tier

/-!
# Placements

Clusters can be placed when every member is a parent node, is listed once, and is not virtual. The
placement then tells the owner of each parent node (`placement_ok`), and the image of a hyperedge
is what it becomes along the owners.
-/
namespace Multilevel

variable {α : Type}

def Clustering.touches (clusters : Clustering) (e : Edge α) : Bool :=
  e.members.any fun n => decide (n ∈ clusters.flatten)

namespace Level

/-! ### Placing clusters -/

/-- What the clusters of a parent have to meet to be placed. -/
structure Places (parent : Level α) (clusters : Clustering) : Prop where
  known : ∀ n ∈ clusters.flatten, n < parent.graph.nodeCount
  once : clusters.flatten.Nodup
  real : ∀ n ∈ clusters.flatten, parent.tier.virtual[n]? ≠ some true

theorem Places.known_of_mem {parent : Level α} {clusters : Clustering}
    (places : parent.Places clusters) {members : List NodeId} (present : members ∈ clusters) :
    ∀ n ∈ members, n < parent.graph.nodeCount :=
  fun n member => places.known n (List.mem_flatten.mpr ⟨members, present, member⟩)

def placed (origins : List Origin) (count : Nat) : Placement :=
  spread origins ((List.range origins.length).map some) (List.replicate count none)

theorem flatMap_parents_cluster (clusters : Clustering) :
    (clusters.map Origin.cluster).flatMap Origin.parents = clusters.flatten := by
  rw [List.flatMap_map]
  exact List.flatMap_id'

theorem flatMap_parents_boundary (boundary : List NodeId) :
    (boundary.map Origin.boundary).flatMap Origin.parents = boundary := by
  rw [List.flatMap_map]
  exact List.flatMap_singleton' _

theorem assign_ok {parent : Level α} {c : Nat} {before after : Placement} {n : NodeId} :
    parent.assign c before n = .ok after ↔
      (before[n]? = some none ∧ parent.tier.virtual[n]? ≠ some true) ∧
        after = before.set n (some c) := by
  unfold assign
  cases before[n]? with
  | none => simp
  | some held =>
    cases held with
    | some _ => simp
    | none =>
      cases parent.tier.virtual[n]? with
      | none => simp [eq_comm]
      | some virtual => cases virtual <;> simp [eq_comm]

/-- Entries are assigned one by one when each position is free, its own, and not virtual. -/
theorem foldlM_assign_ok {parent : Level α} {entries : List (NodeId × Nat)}
    {before after : Placement} :
    entries.foldlM (fun p e => parent.assign e.2 p e.1) before = .ok after ↔
      ((entries.map Prod.fst).Nodup ∧ ∀ n ∈ entries.map Prod.fst,
        before[n]? = some none ∧ parent.tier.virtual[n]? ≠ some true) ∧
      after = overwrite (entries.map fun e => (e.1, some e.2)) before := by
  induction entries generalizing before with
  | nil =>
    rw [List.foldlM_nil, pure_ok, eq_comm]
    simp [overwrite]
  | cons e entries ih =>
    have untouched (distinct : e.1 ∉ entries.map Prod.fst) : ∀ n ∈ entries.map Prod.fst,
        (before.set e.1 (some e.2))[n]? = before[n]? := fun n member =>
      List.getElem?_set_ne fun same => distinct (by rw [same]; exact member)
    rw [List.foldlM_cons, bind_ok, List.map_cons, List.nodup_cons, List.forall_mem_cons]
    constructor
    · rintro ⟨next, first, rest⟩
      obtain ⟨free, rfl⟩ := assign_ok.mp first
      obtain ⟨⟨nodup, others⟩, same⟩ := ih.mp rest
      have distinct : e.1 ∉ entries.map Prod.fst := by
        intro member
        have read := (others e.1 member).1
        rw [List.getElem?_set_self (List.getElem?_eq_some_iff.mp free.1).1] at read
        cases read
      refine ⟨⟨⟨distinct, nodup⟩, free, fun n member => ?_⟩, same⟩
      rw [← untouched distinct n member]
      exact others n member
    · rintro ⟨⟨⟨distinct, nodup⟩, free, others⟩, same⟩
      refine ⟨_, assign_ok.mpr ⟨free, rfl⟩, ih.mpr ⟨⟨nodup, fun n member => ?_⟩, same⟩⟩
      rw [untouched distinct n member]
      exact others n member

theorem zip_range_eq_zipIdx {β : Type} (xs : List β) :
    xs.zip (List.range xs.length) = xs.zipIdx := by
  rw [List.range_eq_range', ← List.zipIdx_eq_zip_range']

/-- The members of clusters in order, each with the number of its cluster. -/
def entries (clusters : Clustering) : List (NodeId × Nat) :=
  clusters.zipIdx.flatMap fun e => e.1.map (·, e.2)

theorem map_fst_entries (clusters : Clustering) :
    (entries clusters).map Prod.fst = clusters.flatten := by
  simp only [entries, List.map_flatMap, List.map_map, Function.comp_def, List.map_id']
  rw [List.flatMap_def, List.zipIdx_map_fst]

theorem mem_entries {clusters : Clustering} {n c : Nat} :
    (n, c) ∈ entries clusters ↔ ∃ members, clusters[c]? = some members ∧ n ∈ members := by
  unfold entries
  rw [List.mem_flatMap]
  constructor
  · rintro ⟨⟨members, d⟩, listed, entry⟩
    obtain ⟨m, member, same⟩ := List.mem_map.mp entry
    obtain ⟨rfl, rfl⟩ := Prod.mk.inj same
    exact ⟨members, List.mem_zipIdx_iff_getElem?.mp listed, member⟩
  · rintro ⟨members, read, member⟩
    exact ⟨(members, c), List.mem_zipIdx_iff_getElem?.mpr read, List.mem_map.mpr ⟨n, member, rfl⟩⟩

theorem assignments_cluster (clusters : Clustering) :
    assignments (clusters.map Origin.cluster) ((List.range clusters.length).map some) =
      (entries clusters).map fun e => (e.1, some e.2) := by
  rw [assignments, entries, List.zip_map, List.flatMap_map, zip_range_eq_zipIdx, List.map_flatMap]
  simp only [List.map_map]
  rfl

theorem placement_eq_foldlM (parent : Level α) (clusters : Clustering) :
    parent.placement clusters = (entries clusters).foldlM
      (fun p e => parent.assign e.2 p e.1) (List.replicate parent.graph.nodeCount none) := by
  rw [entries, foldlM_flatMap]
  simp only [List.foldlM_map]
  rfl

theorem placement_ok {parent : Level α} {clusters : Clustering} {inside : Placement} :
    parent.placement clusters = .ok inside ↔ parent.Places clusters ∧
      inside = placed (clusters.map .cluster) parent.graph.nodeCount := by
  rw [placement_eq_foldlM, foldlM_assign_ok, map_fst_entries, placed, spread_eq_overwrite,
    List.length_map, assignments_cluster]
  refine and_congr_left fun _ => ⟨fun ⟨once, free⟩ => ?_, fun places => ?_⟩
  · refine ⟨fun n member => ?_, once, fun n member => (free n member).2⟩
    simpa using (List.getElem?_eq_some_iff.mp (free n member).1).1
  · refine ⟨places.once, fun n member => ⟨?_, places.real n member⟩⟩
    rw [List.getElem?_replicate, if_pos (places.known n member)]

/-! ### Reading a placement -/

theorem length_placed (origins : List Origin) (count : Nat) :
    (placed origins count).length = count := by
  rw [placed, length_spread, List.length_replicate]

theorem node?_placed {origins : List Origin} {count : Nat}
    (once : (origins.flatMap Origin.parents).Nodup)
    (known : ∀ n ∈ origins.flatMap Origin.parents, n < count) (n : NodeId) :
    (placed origins count).node? n = owner origins n := by
  unfold Placement.node?
  rcases Nat.lt_or_ge n count with bound | outside
  · have lengths : origins.length = ((List.range origins.length).map some).length := by simp
    rw [placed, getElem?_spread once lengths (by rwa [List.length_replicate]),
      List.getElem?_replicate, if_pos bound]
    cases h : owner origins n with
    | none => rfl
    | some i =>
      rw [Option.bind_some, List.getElem?_map, List.getElem?_range (lt_of_owner h)]
      rfl
  · have absent : n ∉ origins.flatMap Origin.parents := fun member =>
      Nat.lt_irrefl _ (Nat.lt_of_lt_of_le (known n member) outside)
    rw [owner_eq_none.mpr absent, List.getElem?_eq_none (by rwa [length_placed])]
    rfl

theorem placed_concat_boundary (origins : List Origin) (n : NodeId) (count : Nat) :
    placed (origins ++ [.boundary n]) count =
      (placed origins count).set n (some origins.length) := by
  rw [placed, List.length_append, List.length_singleton, List.range_succ, List.map_append,
    spread_append (by simp)]
  rfl

/-! ### The boundary -/

theorem isSome_owner (origins : List Origin) (n : NodeId) :
    (owner origins n).isSome = decide (n ∈ origins.flatMap Origin.parents) := by
  have external : owner origins n = none ↔ n ∉ origins.flatMap Origin.parents := owner_eq_none
  cases h : owner origins n with
  | none => simpa using external.mp h
  | some i => simpa [h] using external

/-- The members of an edge outside all clusters, if it also has one inside. -/
def externals (clusters : Clustering) (members : List NodeId) : List NodeId :=
  if members.any fun n => decide (n ∈ clusters.flatten) then
    members.filter fun n => decide (n ∉ clusters.flatten)
  else []

theorem mem_externals {clusters : Clustering} {e : Edge α} {n : NodeId} :
    n ∈ externals clusters e.members ↔
      n ∉ clusters.flatten ∧ clusters.touches e = true ∧ n ∈ e.members := by
  have same : externals clusters e.members = if clusters.touches e = true then
      e.members.filter fun n => decide (n ∉ clusters.flatten) else [] := rfl
  rw [same]
  by_cases touched : clusters.touches e = true
  · rw [if_pos touched, List.mem_filter, decide_eq_true_eq, and_comm]
    simp only [touched, true_and]
  · rw [if_neg touched]
    simp [touched]

def meet (met : List NodeId) (n : NodeId) : List NodeId := if n ∈ met then met else met ++ [n]

theorem foldl_meet (nodes : List NodeId) : nodes.foldl meet [] = nodes.eraseDups := by
  have collected := foldl_collect (fun _ => false) nodes
  simp only [Bool.false_eq_true, false_or, Bool.not_false, List.filter_true] at collected
  exact collected

/-- The external nodes that share a hyperedge with a cluster, in the order in which they are met
when the edges are gone through. -/
def boundary (clusters : Clustering) (edges : List (Edge α)) : List NodeId :=
  edges.foldl (fun met e => (externals clusters e.members).foldl meet met) []

theorem boundary_eq_eraseDups (clusters : Clustering) (edges : List (Edge α)) :
    boundary clusters edges =
      ((edges.map Edge.members).flatMap (externals clusters)).eraseDups := by
  rw [boundary, ← List.foldl_flatMap, foldl_meet, List.flatMap_map]

theorem nodup_boundary (clusters : Clustering) (edges : List (Edge α)) :
    (boundary clusters edges).Nodup := by
  rw [boundary_eq_eraseDups]
  exact nodup_eraseDups _

theorem mem_boundary {clusters : Clustering} {edges : List (Edge α)} {n : NodeId} :
    n ∈ boundary clusters edges ↔
      n ∉ clusters.flatten ∧ ∃ e ∈ edges, clusters.touches e = true ∧ n ∈ e.members := by
  rw [boundary_eq_eraseDups, List.mem_eraseDups, List.mem_flatMap]
  constructor
  · rintro ⟨_, listed, member⟩
    obtain ⟨e, present, rfl⟩ := List.mem_map.mp listed
    obtain ⟨external, shared⟩ := mem_externals.mp member
    exact ⟨external, e, present, shared⟩
  · rintro ⟨external, e, present, shared⟩
    exact ⟨e.members, List.mem_map.mpr ⟨e, present, rfl⟩, mem_externals.mpr ⟨external, shared⟩⟩

end Level
end Multilevel
