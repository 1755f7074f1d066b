import Mathlib.Data.List.Nodup
import Mathlib.Logic.Equiv.Basic
import Multilevel.Hypergraph.Basic
import Multilevel.Proofs.Ordered

/-!
# Quotients of hyperedges

A map sends nodes to nodes of another graph, or nowhere. A hyperedge goes along when its image
spans two nodes. Going along two maps one after the other is going along their composition
(`along_bind_along`): an edge that the first one loses would have collapsed in the second. A map that
only gives the nodes other numbers loses no edge (`along_map`).
-/
namespace Multilevel.Edge

variable {α : Type}

def imageAlong (f : NodeId → Option NodeId) (e : Edge α) : List NodeId :=
  Ordered.ofList (e.members.filterMap f)

/-- The image of an edge, if it spans two nodes. -/
def along (f : NodeId → Option NodeId) (e : Edge α) : Option (Edge α) :=
  if 1 < (e.imageAlong f).length then some ⟨e.weights, e.imageAlong f⟩ else none

theorem mem_imageAlong {f : NodeId → Option NodeId} {e : Edge α} {c : NodeId} :
    c ∈ e.imageAlong f ↔ ∃ n ∈ e.members, f n = some c := by
  rw [imageAlong, Ordered.mem_ofList, List.mem_filterMap]

theorem along_eq_some {f : NodeId → Option NodeId} {e d : Edge α} :
    e.along f = some d ↔ 1 < (e.imageAlong f).length ∧ d = ⟨e.weights, e.imageAlong f⟩ := by
  unfold along
  by_cases spans : 1 < (e.imageAlong f).length
  · rw [if_pos spans, Option.some.injEq, eq_comm]
    exact (and_iff_right spans).symm
  · simp [spans]

theorem along_of_apart {f : NodeId → Option NodeId} {e : Edge α} {a b c d : NodeId}
    (first : a ∈ e.members) (second : b ∈ e.members) (left : f a = some c) (right : f b = some d)
    (apart : c ≠ d) : e.along f = some ⟨e.weights, e.imageAlong f⟩ := by
  refine along_eq_some.mpr ⟨Nat.lt_of_not_le fun collapsed => apart ?_, rfl⟩
  exact Ordered.length_ofList_le_one.mp collapsed c (List.mem_filterMap.mpr ⟨a, first, left⟩)
    d (List.mem_filterMap.mpr ⟨b, second, right⟩)

theorem along_congr {f g : NodeId → Option NodeId} {e : Edge α}
    (same : ∀ n ∈ e.members, f n = g n) : e.along f = e.along g := by
  have image : e.imageAlong f = e.imageAlong g := by
    rw [imageAlong, imageAlong, List.filterMap_congr same]
  rw [along, along, image]

theorem imageAlong_imageAlong (f g : NodeId → Option NodeId) (e : Edge α) :
    imageAlong g ⟨e.weights, e.imageAlong f⟩ = e.imageAlong fun n => (f n).bind g := by
  apply Ordered.ofList_congr
  intro c
  simp only [List.mem_filterMap, mem_imageAlong, Option.bind_eq_some_iff]
  constructor
  · rintro ⟨d, ⟨n, member, first⟩, second⟩
    exact ⟨n, member, d, first, second⟩
  · rintro ⟨n, member, d, first, second⟩
    exact ⟨d, ⟨n, member, first⟩, second⟩

theorem length_imageAlong_le_one {f g : NodeId → Option NodeId} {e : Edge α}
    (small : (e.imageAlong f).length ≤ 1) :
    (e.imageAlong fun n => (f n).bind g).length ≤ 1 := by
  have same := Ordered.length_ofList_le_one.mp small
  apply Ordered.length_ofList_le_one.mpr
  intro a first b second
  obtain ⟨n, left, path⟩ := List.mem_filterMap.mp first
  obtain ⟨m, right, other⟩ := List.mem_filterMap.mp second
  obtain ⟨c, reached, last⟩ := Option.bind_eq_some_iff.mp path
  obtain ⟨d, met, final⟩ := Option.bind_eq_some_iff.mp other
  have equal := same c (List.mem_filterMap.mpr ⟨n, left, reached⟩)
    d (List.mem_filterMap.mpr ⟨m, right, met⟩)
  subst equal
  exact Option.some.inj (last.symm.trans final)

theorem along_bind_along (f g : NodeId → Option NodeId) (e : Edge α) :
    (e.along f).bind (along g) = e.along fun n => (f n).bind g := by
  by_cases spans : 1 < (e.imageAlong f).length
  · rw [along, if_pos spans, Option.bind_some, along, imageAlong_imageAlong]
    rfl
  · have small := length_imageAlong_le_one (g := g) (Nat.le_of_not_lt spans)
    rw [along, if_neg spans, along, if_neg (Nat.not_lt.mpr small)]
    rfl

theorem filterMap_along_along (f g : NodeId → Option NodeId) (edges : List (Edge α)) :
    (edges.filterMap (along f)).filterMap (along g) =
      edges.filterMap (along fun n => (f n).bind g) := by
  rw [List.filterMap_filterMap]
  exact List.filterMap_congr fun e _ => along_bind_along f g e

/-! ### Renamed nodes -/

variable {σ : Equiv.Perm NodeId}

def renamed (σ : Equiv.Perm NodeId) (e : Edge α) : Edge α :=
  ⟨e.weights, Ordered.ofList (e.members.map σ)⟩

theorem mem_renamed {e : Edge α} {n : NodeId} : σ n ∈ (e.renamed σ).members ↔ n ∈ e.members := by
  rw [renamed, Ordered.mem_ofList, List.mem_map_of_injective σ.injective]

theorem imageAlong_map (f : NodeId → Option NodeId) (e : Edge α) :
    (e.imageAlong fun n => (f n).map σ) = Ordered.ofList ((e.imageAlong f).map σ) := by
  refine Ordered.ofList_congr fun c => ?_
  simp only [List.mem_filterMap, List.mem_map, mem_imageAlong, Option.map_eq_some_iff]
  constructor
  · rintro ⟨n, spans, d, own, same⟩
    exact ⟨d, ⟨n, spans, own⟩, same⟩
  · rintro ⟨d, ⟨n, spans, own⟩, same⟩
    exact ⟨n, spans, d, own, same⟩

/-- Renaming nodes tells apart whatever was told apart before. -/
theorem along_map (f : NodeId → Option NodeId) (e : Edge α) :
    (e.along fun n => (f n).map σ) = (e.along f).map (renamed σ) := by
  have distinct : ((e.imageAlong f).map σ).Nodup :=
    List.Nodup.map σ.injective ((Ordered.increasing_ofList _).imp Nat.ne_of_lt)
  have length : (e.imageAlong fun n => (f n).map σ).length = (e.imageAlong f).length := by
    rw [imageAlong_map, (Ordered.perm_ofList distinct).length_eq, List.length_map]
  rw [along, along, length, imageAlong_map]
  split <;> rfl

end Multilevel.Edge
