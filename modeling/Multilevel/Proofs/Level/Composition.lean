import Multilevel.Proofs.Exact
import Multilevel.Proofs.Level.Cut

/-!
# Coarsening twice

Clusters of clusters are clusters. Coarsening twice without virtual nodes is coarsening once with
the composed clustering: it is accepted, a node goes where it would go in two steps, and what the
first step drops would have collapsed in the second.
-/
namespace Multilevel

def Clustering.members (clusters : Clustering) (c : NodeId) : List NodeId := clusters[c]?.getD []

/-- Clusters of the clusters of another clustering. -/
def Clustering.compose (first second : Clustering) : Clustering :=
  second.map fun numbers => numbers.flatMap first.members

namespace Clustering

theorem mem_members {clusters : Clustering} {c n : NodeId} :
    n ∈ clusters.members c ↔ ∃ members, clusters[c]? = some members ∧ n ∈ members := by
  unfold Clustering.members
  cases clusters[c]? <;> simp

theorem members_of_le {clusters : Clustering} {c : NodeId} (outside : clusters.length ≤ c) :
    clusters.members c = [] := by
  rw [members, List.getElem?_eq_none outside]
  rfl

theorem getElem?_eq_members {clusters : Clustering} {c : NodeId} (inside : c < clusters.length) :
    clusters[c]? = some (clusters.members c) := by
  rw [members, List.getElem?_eq_getElem inside]
  rfl

theorem flatten_eq_members (clusters : Clustering) :
    clusters.flatten = (List.range clusters.length).flatMap clusters.members := by
  have listed : (List.range clusters.length).map clusters.members = clusters := by
    refine List.ext_getElem (by simp) fun c _ inside => ?_
    simp [members, inside]
  conv_lhs => rw [← listed]
  rw [List.flatMap_def]

theorem mem_flatten_of_mem_members {clusters : Clustering} {c n : NodeId}
    (listed : n ∈ clusters.members c) : n ∈ clusters.flatten := by
  obtain ⟨members, read, own⟩ := mem_members.mp listed
  exact List.mem_flatten.mpr ⟨members, List.mem_of_getElem? read, own⟩

theorem flatten_compose (first second : Clustering) :
    (first.compose second).flatten = second.flatten.flatMap first.members := by
  rw [compose, List.flatten_eq_flatMap, List.flatMap_map, List.flatten_eq_flatMap,
    List.flatMap_assoc]
  rfl

theorem members_eq_parentsAt (clusters : Clustering) (c : NodeId) :
    clusters.members c = Level.parentsAt (clusters.map .cluster) c := by
  rw [Clustering.members, Level.parentsAt, List.getElem?_map]
  cases clusters[c]? <;> rfl

theorem mem_members_iff_owner {clusters : Clustering} (once : clusters.flatten.Nodup)
    {c n : NodeId} :
    n ∈ clusters.members c ↔ Level.owner (clusters.map .cluster) n = some c := by
  rw [members_eq_parentsAt, Level.mem_parentsAt_iff_owner]
  rwa [Level.flatMap_parents_cluster]

theorem nodup_members {clusters : Clustering} (once : clusters.flatten.Nodup) (c : NodeId) :
    (clusters.members c).Nodup := by
  rw [members_eq_parentsAt]
  apply Level.nodup_parentsAt
  rwa [Level.flatMap_parents_cluster]

theorem nodup_compose {first second : Clustering} (left : first.flatten.Nodup)
    (right : second.flatten.Nodup) : (first.compose second).flatten.Nodup := by
  rw [flatten_compose]
  refine List.pairwise_flatMap.mpr ⟨fun c _ => nodup_members left c, ?_⟩
  refine right.imp fun {c d} different n inside m other same => ?_
  rw [← same] at other
  rw [mem_members_iff_owner left] at inside other
  exact different (Option.some.inj (inside.symm.trans other))

theorem owner_compose {first second : Clustering} (left : first.flatten.Nodup)
    (right : second.flatten.Nodup) (n : NodeId) :
    Level.owner ((first.compose second).map .cluster) n =
      (Level.owner (first.map .cluster) n).bind (Level.owner (second.map .cluster)) := by
  apply Option.ext
  intro i
  rw [← mem_members_iff_owner (nodup_compose left right), mem_members, Option.bind_eq_some_iff]
  simp only [← mem_members_iff_owner left, ← mem_members_iff_owner right, mem_members (c := i),
    compose, List.getElem?_map, Option.map_eq_some_iff]
  constructor
  · rintro ⟨_, ⟨numbers, read, rfl⟩, listed⟩
    obtain ⟨c, member, inside⟩ := List.mem_flatMap.mp listed
    exact ⟨c, inside, numbers, read, member⟩
  · rintro ⟨c, inside, numbers, read, member⟩
    exact ⟨_, ⟨numbers, read, rfl⟩, List.mem_flatMap.mpr ⟨c, member, inside⟩⟩

end Clustering

namespace Level

variable {α : Type} {g : Level α} {first second : Clustering}

/-! ### Fixed blocks -/

theorem get?_inherited (start : Nat) (clusters : Clustering) (c : NodeId) :
    Dictionary.get? (g.inherited start clusters) (start + c) =
      (g.fixedBlocks (clusters.members c)).head? := by
  induction clusters generalizing start c with
  | nil => rfl
  | cons members clusters ih =>
    rw [inherited_cons]
    cases c with
    | zero =>
      have absent : Dictionary.get? (g.inherited (start + 1) clusters) start = none := by
        refine List.lookup_eq_none_iff.mpr fun entry member => ?_
        have above := (bounds_of_mem_inherited member).1
        simpa using Nat.ne_of_lt above
      cases h : (g.fixedBlocks members).head? with
      | none => exact absent.trans h.symm
      | some b => simpa [Dictionary.get?, Clustering.members] using h.symm
    | succ c =>
      have rest := ih (start + 1) c
      rw [Nat.add_right_comm, Nat.add_assoc] at rest
      cases h : (g.fixedBlocks members).head? with
      | none => exact rest
      | some b =>
        have different : (start + (c + 1) == start) = false := by simp
        rw [Dictionary.get?, Option.map_some, Option.toList_some, List.singleton_append,
          List.lookup_cons, different]
        exact rest

section
variable {l : Level α} (inherits : l.fixed = g.inherited 0 first)
include inherits

theorem get?_fixed (c : NodeId) :
    l.fixed.get? c = (g.fixedBlocks (first.members c)).head? := by
  have read := get?_inherited (g := g) 0 first c
  rwa [Nat.zero_add, ← inherits] at read

theorem head?_fixedBlocks_compose (numbers : List NodeId) :
    (g.fixedBlocks (numbers.flatMap first.members)).head? = (l.fixedBlocks numbers).head? := by
  have blocks : l.fixed.get? = fun c => (g.fixedBlocks (first.members c)).head? :=
    funext (get?_fixed inherits)
  rw [fixedBlocks, List.filterMap_flatMap, List.head?_flatMap, fixedBlocks, List.head?_filterMap,
    blocks]
  rfl

/-- Members that agree pass on the block of any of them, and no other. -/
theorem get?_fixed_eq_some (clusters : ∀ members ∈ first, g.Agree members) {c : NodeId}
    {b : BlockId} :
    l.fixed.get? c = some b ↔ ∃ n ∈ first.members c, g.fixed.get? n = some b := by
  rw [get?_fixed inherits, ← List.mem_filterMap]
  constructor
  · exact List.mem_of_head?
  · intro own
    obtain ⟨n, listed, -⟩ := List.mem_filterMap.mp own
    obtain ⟨members, read, -⟩ := Clustering.mem_members.mp listed
    have agreed : g.Agree (first.members c) := by
      rw [Clustering.members, read]
      exact clusters members (List.mem_of_getElem? read)
    cases blocks : g.fixedBlocks (first.members c) with
    | nil =>
      rw [← fixedBlocks, blocks] at own
      cases own
    | cons a rest =>
      have held : a ∈ g.fixedBlocks (first.members c) := by simp [blocks]
      exact congrArg some (agreed a held b own)

theorem agree_compose (clusters : ∀ members ∈ first, g.Agree members) {numbers : List NodeId}
    (agree : l.Agree numbers) : g.Agree (numbers.flatMap first.members) := by
  have lifted : ∀ b ∈ g.fixedBlocks (numbers.flatMap first.members), b ∈ l.fixedBlocks numbers := by
    intro b held
    obtain ⟨n, listed, fixed⟩ := List.mem_filterMap.mp held
    obtain ⟨c, member, inside⟩ := List.mem_flatMap.mp listed
    exact List.mem_filterMap.mpr
      ⟨c, member, (get?_fixed_eq_some inherits clusters).mpr ⟨n, inside, fixed⟩⟩
  exact fun a left b right => agree a (lifted a left) b (lifted b right)

theorem inherited_compose : g.inherited 0 (first.compose second) = l.inherited 0 second := by
  rw [inherited, inherited, Clustering.compose, List.zipIdx_map, List.filterMap_map]
  refine List.filterMap_congr fun e _ => ?_
  simp only [Function.comp_def, Prod.map, head?_fixedBlocks_compose inherits, id_eq]

end

/-! ### Children without virtual nodes -/

section
variable [Zero α] [Add α]

theorem origins_coarsened_default : (g.coarsened first {}).origins = first.map .cluster :=
  origins_coarsened.trans childOrigins_default

theorem parentsOf_coarsened {c : NodeId} {members : List NodeId} :
    (g.coarsened first {}).parentsOf c = .ok members ↔ first[c]? = some members := by
  rw [parentsOf_ok, origins_coarsened_default, List.getElem?_map]
  cases first[c]? <;> simp [Origin.cluster]

theorem weights_coarsened :
    (g.coarsened first {}).graph.nodes.map Node.weights = first.map g.together :=
  (Hypergraph.weights_ofParts _ _ _).trans (List.append_nil _)

theorem nodeCount_coarsened : (g.coarsened first {}).graph.nodeCount = first.length := by
  rw [Hypergraph.nodeCount, ← List.length_map Node.weights, weights_coarsened, List.length_map]

theorem weightsAt_coarsened {c : NodeId} (known : c < first.length) :
    (g.coarsened first {}).graph.weightsAt c = g.together (first.members c) := by
  rw [Hypergraph.weightsAt, ← List.getElem?_map, weights_coarsened, List.getElem?_map,
    Clustering.getElem?_eq_members known]
  rfl

/-! ### Two steps and one -/

theorem Accepts.compose (accepts : g.Accepts first)
    (again : (g.coarsened first {}).Accepts second) : g.Accepts (first.compose second) := by
  have inside : ∀ n ∈ (first.compose second).flatten, n ∈ first.flatten := by
    intro n member
    rw [Clustering.flatten_compose] at member
    obtain ⟨c, -, listed⟩ := List.mem_flatMap.mp member
    exact Clustering.mem_flatten_of_mem_members listed
  refine ⟨⟨fun n member => accepts.known n (inside n member),
    Clustering.nodup_compose accepts.once again.once,
    fun n member => accepts.real n (inside n member)⟩, ?_⟩
  refine List.forall_mem_map.mpr fun numbers present => ?_
  exact agree_compose (l := g.coarsened first {}) rfl accepts.agree (again.agree numbers present)

theorem together_compose (exact : ExactAddition α) (wellFormed : g.graph.WellFormed)
    (places : g.Places first) {numbers : List NodeId} (known : ∀ c ∈ numbers, c < first.length) :
    g.together (numbers.flatMap first.members) = (g.coarsened first {}).together numbers := by
  have lengths : ∀ c ∈ numbers, ∀ w ∈ (first.members c).map g.graph.weightsAt,
      w.length = g.graph.nodeDim := by
    refine fun c _ => List.forall_mem_map.mpr fun n listed => ?_
    have member := Clustering.mem_flatten_of_mem_members listed
    exact Hypergraph.length_weightsAt wellFormed (places.known n member)
  have weights : numbers.map (g.coarsened first {}).graph.weightsAt =
      numbers.map fun c => g.together (first.members c) :=
    List.map_congr_left fun c member => weightsAt_coarsened (known c member)
  rw [together, together, weights, List.map_flatMap]
  exact exact.sumOf_flatMap lengths

/-- When two steps succeed, so does one with the composed clusters. It gives the edges, the fixed
nodes and the parents of the second step, and its weights where addition is exact. -/
theorem Reachable.coarsen_compose [One α] {l child : Level α} (reached : g.Reachable)
    (once : g.coarsen first {} = .ok l) (twice : l.coarsen second {} = .ok child) :
    ∃ direct, g.coarsen (first.compose second) {} = .ok direct ∧
      direct.graph.edges = child.graph.edges ∧
      direct.fixed = child.fixed ∧
      direct.graph.nodeCount = child.graph.nodeCount ∧
      (∀ i numbers, child.parentsOf i = .ok numbers → ∃ parents,
        numbers.mapM l.parentsOf = .ok parents ∧ direct.parentsOf i = .ok parents.flatten) ∧
      (ExactAddition α →
        direct.graph.nodes.map Node.weights = child.graph.nodes.map Node.weights) := by
  have graph := reached.wellFormed.graph
  have middle := (reached.coarsen once).wellFormed.graph
  obtain ⟨accepts, rfl⟩ := (coarsen_ok graph).mp once
  obtain ⟨again, rfl⟩ := (coarsen_ok middle).mp twice
  have both := accepts.compose again
  have direct : g.coarsen (first.compose second) {} = .ok _ := both.coarsen_eq graph
  have known : ∀ numbers ∈ second, ∀ c ∈ numbers, c < first.length := by
    intro numbers present c member
    rw [← nodeCount_coarsened (g := g)]
    exact again.known c (List.mem_flatten.mpr ⟨numbers, present, member⟩)
  refine ⟨_, direct, ?_, inherited_compose rfl, ?_, ?_, ?_⟩
  · rw [(quotientOf_coarsen graph direct).edges, (quotientOf_coarsen middle twice).edges,
      (quotientOf_coarsen graph once).edges, Edge.filterMap_along_along]
    simp only [origins_coarsened_default]
    rw [funext (Clustering.owner_compose accepts.once again.once)]
  · rw [nodeCount_coarsened, nodeCount_coarsened, Clustering.compose, List.length_map]
  · intro i numbers read
    rw [parentsOf_coarsened] at read
    refine ⟨numbers.map first.members, mapM_eq_map fun c member => ?_, ?_⟩
    · have bound := known numbers (List.mem_of_getElem? read) c member
      exact parentsOf_coarsened.mpr (Clustering.getElem?_eq_members bound)
    · rw [parentsOf_coarsened, Clustering.compose, List.getElem?_map, read]
      rfl
  · intro exact
    rw [weights_coarsened, weights_coarsened, Clustering.compose, List.map_map]
    exact List.map_congr_left fun numbers present =>
      together_compose exact graph accepts.toPlaces (known numbers present)

/-- A row that is coarsened to two nodes and to one of them alone. -/
theorem coarsen_compose_line : ∃ l child direct : Level Rat,
    (ofGraph (.line Rat)).coarsen [[1], [3, 0], [2]] {} = .ok l ∧
    l.coarsen [[2, 0], [1]] {} = .ok child ∧
    (ofGraph (.line Rat)).coarsen [[2, 1], [3, 0]] {} = .ok direct ∧
    direct.graph.edges = child.graph.edges ∧ direct.fixed = child.fixed ∧
    direct.graph.nodeCount = child.graph.nodeCount ∧
    (∀ i numbers, child.parentsOf i = .ok numbers → ∃ parents,
      numbers.mapM l.parentsOf = .ok parents ∧ direct.parentsOf i = .ok parents.flatten) ∧
    direct.graph.nodes.map Node.weights = child.graph.nodes.map Node.weights := by
  have top : (ofGraph (.line Rat)).Reachable := .ofGraph Hypergraph.reachable_line
  obtain ⟨l, first⟩ := ok_of_isOk (x := (ofGraph (.line Rat)).coarsen [[1], [3, 0], [2]] {}) (by decide)
  obtain ⟨-, rfl⟩ := (coarsen_ok top.wellFormed.graph).mp first
  obtain ⟨child, second⟩ := ok_of_isOk
    (x := ((ofGraph (.line Rat)).coarsened [[1], [3, 0], [2]] {}).coarsen [[2, 0], [1]] {})
    (by decide +kernel)
  obtain ⟨direct, made, edges, fixed, count, parents, weights⟩ :=
    Reachable.coarsen_compose top first second
  exact ⟨_, _, direct, first, second, made, edges, fixed, count, parents,
    weights exactAddition_rat⟩

end
end Level
end Multilevel
