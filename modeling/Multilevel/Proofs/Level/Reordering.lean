import Multilevel.Proofs.Hypergraph.Adjacency
import Multilevel.Proofs.Level.Composition
import Multilevel.Proofs.Level.Conservation
import Multilevel.Proofs.Level.Induced

/-!
# Clusters in another order

Which clusters a clustering has says what a child is, up to the numbers of its nodes. Listed in
another order, the clusters are accepted as they were before, and the nodes of the child change
their numbers with them. The virtual nodes behind them are met in the same order and keep theirs.
-/
namespace Multilevel

/-! ### Reordered clusterings -/

/-- The same clusters in another order, each with its members in another order. -/
structure Clustering.Reordered (first second : Clustering) (σ : Equiv.Perm NodeId) : Prop where
  length : second.length = first.length
  beyond : ∀ c, first.length ≤ c → σ c = c
  members : ∀ c < first.length, (second.members (σ c)).Perm (first.members c)

namespace Clustering

variable {first second : Clustering} {σ : Equiv.Perm NodeId}

namespace Reordered

section
variable (reordered : first.Reordered second σ)
include reordered

/-- The numbers up to any bound behind the clusters are permuted among themselves. -/
theorem lt_iff {c n : NodeId} (enough : first.length ≤ n) : σ c < n ↔ c < n := by
  constructor
  · intro inside
    by_contra outside
    rw [reordered.beyond c (Nat.le_trans enough (Nat.le_of_not_lt outside))] at inside
    exact outside inside
  · intro inside
    by_contra outside
    have kept := reordered.beyond (σ c) (Nat.le_trans enough (Nat.le_of_not_lt outside))
    rw [σ.injective kept] at outside
    exact outside inside

theorem perm_members (c : NodeId) : (second.members (σ c)).Perm (first.members c) := by
  rcases Nat.lt_or_ge c first.length with inside | outside
  · exact reordered.members c inside
  · rw [reordered.beyond c outside, members_of_le outside,
      members_of_le (by rwa [reordered.length])]

theorem symm : second.Reordered first σ.symm where
  length := reordered.length.symm
  beyond c outside := by
    rw [reordered.length] at outside
    exact (Equiv.symm_apply_eq σ).mpr (reordered.beyond c outside).symm
  members c _ := by
    have same := reordered.perm_members (σ.symm c)
    rw [Equiv.apply_symm_apply] at same
    exact same.symm

theorem perm_range : ((List.range first.length).map σ).Perm (List.range first.length) := by
  have distinct := List.Nodup.map σ.injective (List.nodup_range (n := first.length))
  refine (List.perm_ext_iff_of_nodup distinct List.nodup_range).mpr fun c => ?_
  rw [List.mem_map, List.mem_range]
  constructor
  · rintro ⟨d, inside, rfl⟩
    exact (reordered.lt_iff (Nat.le_refl _)).mpr (List.mem_range.mp inside)
  · intro inside
    refine ⟨σ.symm c, ?_, σ.apply_symm_apply c⟩
    rwa [List.mem_range, ← reordered.lt_iff (Nat.le_refl _), σ.apply_symm_apply]

theorem perm_flatten : second.flatten.Perm first.flatten := by
  have numbers := (reordered.perm_range.flatMap_right second.members).symm
  rw [List.flatMap_map] at numbers
  rw [flatten_eq_members, flatten_eq_members first, reordered.length]
  exact numbers.trans (List.Perm.flatMap_left _ fun c _ => reordered.perm_members c)

theorem exists_perm {others : List NodeId} (present : others ∈ second) :
    ∃ members ∈ first, others.Perm members := by
  obtain ⟨c, inside, same⟩ := List.mem_iff_getElem.mp present
  have read := (getElem?_eq_members inside).symm.trans (List.getElem?_eq_getElem inside)
  rw [← same, ← Option.some.inj read, ← σ.apply_symm_apply c]
  have known : σ.symm c < first.length := by
    rwa [← reordered.lt_iff (Nat.le_refl _), σ.apply_symm_apply, ← reordered.length]
  exact ⟨_, List.mem_of_getElem? (getElem?_eq_members known), reordered.perm_members (σ.symm c)⟩

end
end Reordered
end Clustering

theorem Hypergraph.edgesAt_renamed {α : Type} {σ : Equiv.Perm NodeId} (edges : List (Edge α))
    (n : NodeId) : edgesAt (edges.map (Edge.renamed σ)) (σ n) = edgesAt edges n := by
  rw [edgesAt, List.zipIdx_map, List.filter_map, List.map_map]
  simp only [Function.comp_def, Prod.map, Edge.mem_renamed]
  rfl

namespace Level

variable {α : Type} {parent : Level α} {first second : Clustering} {σ : Equiv.Perm NodeId}
  {options : CoarsenOptions}

/-! ### Acceptance -/

theorem perm_fixedBlocks (l : Level α) {nodes others : List NodeId} (same : others.Perm nodes) :
    (l.fixedBlocks others).Perm (l.fixedBlocks nodes) := same.filterMap _

theorem Agree.perm {nodes others : List NodeId} (agree : parent.Agree nodes)
    (same : others.Perm nodes) : parent.Agree others := by
  have blocks (b : BlockId) := (parent.perm_fixedBlocks same).mem_iff (a := b)
  exact fun a left b right => agree a ((blocks a).mp left) b ((blocks b).mp right)

section
variable (reordered : first.Reordered second σ)
include reordered

theorem Accepts.reorder (accepts : parent.Accepts first) : parent.Accepts second := by
  have same := reordered.perm_flatten
  refine ⟨⟨fun n listed => accepts.known n (same.mem_iff.mp listed),
    same.nodup_iff.mpr accepts.once,
    fun n listed => accepts.real n (same.mem_iff.mp listed)⟩, fun members present => ?_⟩
  obtain ⟨others, listed, own⟩ := reordered.exists_perm present
  exact (accepts.agree others listed).perm own

/-! ### Nodes -/

theorem outskirts_reorder : parent.outskirts second options = parent.outskirts first options := by
  have same (members : List NodeId) : externals second members = externals first members := by
    simp only [externals, reordered.perm_flatten.mem_iff]
  simp only [outskirts, boundary, same]

/-- What a node stands for when the clusters are in the other order. -/
structure SameOrigin (σ : Equiv.Perm NodeId) (c : NodeId) (o u : Origin) : Prop where
  parents : u.parents.Perm o.parents
  isVirtual : u.isVirtual = o.isVirtual
  kept : o.isVirtual = true → σ c = c

theorem exists_sameOrigin {c : NodeId} {o : Origin}
    (read : (parent.childOrigins first options)[c]? = some o) :
    ∃ u, (parent.childOrigins second options)[σ c]? = some u ∧ SameOrigin σ c o u := by
  rcases Nat.lt_or_ge c first.length with inside | outside
  · have known : σ c < second.length := by
      rwa [reordered.length, reordered.lt_iff (Nat.le_refl _)]
    rw [getElem?_childOrigins_of_cluster (Clustering.getElem?_eq_members inside)] at read
    obtain rfl := Option.some.inj read
    exact ⟨_, getElem?_childOrigins_of_cluster (Clustering.getElem?_eq_members known),
      reordered.perm_members c, rfl, nofun⟩
  · -- the boundary is met in the same order, and starts at the same number
    have fixed := reordered.beyond c outside
    refine ⟨o, ?_, List.Perm.refl _, rfl, fun _ => fixed⟩
    rw [fixed, getElem?_childOrigins_of_le (by rwa [reordered.length]),
      outskirts_reorder reordered, reordered.length, ← read,
      getElem?_childOrigins_of_le outside]

theorem owner_reorder (right : parent.Places second) (n : NodeId) :
    owner (parent.childOrigins second options) n =
      (owner (parent.childOrigins first options) n).map σ := by
  cases own : owner (parent.childOrigins first options) n with
  | none =>
    rw [owner_eq_none, flatMap_parents_childOrigins] at own
    rw [Option.map_none, owner_eq_none, flatMap_parents_childOrigins,
      outskirts_reorder reordered]
    rwa [List.mem_append, reordered.perm_flatten.mem_iff, ← List.mem_append]
  | some c =>
    obtain ⟨o, read, listed⟩ := mem_of_owner own
    obtain ⟨u, other, same⟩ := exists_sameOrigin reordered read
    exact (owner_eq_some right.once_childOrigins).mpr ⟨u, other, same.parents.mem_iff.mpr listed⟩

/-! ### Hyperedges -/

theorem induced_reorder (right : parent.Places second) (e : Edge α) :
    induced second (parent.childOrigins second options) e =
      (induced first (parent.childOrigins first options) e).map (Edge.renamed σ) := by
  have touched : second.touches e = first.touches e := by
    simp only [Clustering.touches, reordered.perm_flatten.mem_iff]
  rw [induced, induced, touched, funext (owner_reorder reordered right), Edge.along_map]
  split <;> rfl

variable [Zero α] [Add α]

theorem edges_reorder (right : parent.Places second) :
    (parent.coarsened second options).graph.edges =
      (parent.coarsened first options).graph.edges.map (Edge.renamed σ) := by
  rw [edges_coarsened, edges_coarsened, List.map_filterMap]
  exact List.filterMap_congr fun e _ => induced_reorder reordered right e

/-! ### Fixed nodes and weights -/

theorem get?_fixed_reorder (left : parent.Accepts first) (right : parent.Accepts second)
    (c : NodeId) : (parent.coarsened second options).fixed.get? (σ c) =
      (parent.coarsened first options).fixed.get? c := by
  apply Option.ext
  intro b
  rw [get?_fixed_eq_some (l := parent.coarsened second options) rfl right.agree,
    get?_fixed_eq_some (l := parent.coarsened first options) rfl left.agree]
  simp only [(reordered.perm_members c).mem_iff]

omit reordered in
theorem SameOrigin.weight (exact : ExactAddition α) {c : NodeId} {o u : Origin}
    (same : SameOrigin σ c o u) : parent.originWeight u = parent.originWeight o := by
  unfold originWeight
  rw [same.isVirtual]
  split
  · rfl
  · exact exact.sumOf_perm (same.parents.map parent.graph.weightsAt)

end

/-! ### The two children -/

/-- A level whose nodes are those of another one under other numbers. Virtual nodes keep theirs. -/
structure Renamed (σ : Equiv.Perm NodeId) (l m : Level α) : Prop where
  parent : m.parent? = l.parent?
  factors : m.graph.factors = l.graph.factors
  nodeCount : m.graph.nodeCount = l.graph.nodeCount
  known : ∀ c, σ c < m.graph.nodeCount ↔ c < l.graph.nodeCount
  isVirtual : ∀ c virtual, l.isVirtual c = .ok virtual →
    m.isVirtual (σ c) = .ok virtual ∧ (virtual = true → σ c = c)
  parents : ∀ c parents, l.parentsOf c = .ok parents →
    ∃ others, m.parentsOf (σ c) = .ok others ∧ others.Perm parents
  fixed : ∀ c, m.fixed.get? (σ c) = l.fixed.get? c
  edges : m.graph.edges = l.graph.edges.map (Edge.renamed σ)
  incident : ∀ c < l.graph.nodeCount, m.graph.incident (σ c) = l.graph.incident c

variable [Zero α] [Add α]

section
variable (reordered : first.Reordered second σ)
include reordered

omit [Zero α] [Add α] in
theorem length_childOrigins_reorder :
    (parent.childOrigins second options).length = (parent.childOrigins first options).length := by
  simp only [childOrigins, length_origins, reordered.length, outskirts_reorder reordered]

theorem Accepts.renamed (left : parent.Accepts first) (right : parent.Accepts second)
    (graph : parent.graph.WellFormed) :
    Renamed σ (parent.coarsened first options) (parent.coarsened second options) := by
  have one : (parent.coarsened first options).WellFormed := left.wellFormed graph
  have two : (parent.coarsened second options).WellFormed := right.wellFormed graph
  have count : (parent.coarsened second options).graph.nodeCount =
      (parent.coarsened first options).graph.nodeCount := by
    rw [← one.origins, ← two.origins, origins_coarsened, origins_coarsened]
    exact length_childOrigins_reorder reordered
  have enough : first.length ≤ (parent.coarsened first options).graph.nodeCount := by
    rw [← one.origins, origins_coarsened, childOrigins, length_origins]
    exact Nat.le_add_right _ _
  have known (c : NodeId) : σ c < (parent.coarsened second options).graph.nodeCount ↔
      c < (parent.coarsened first options).graph.nodeCount := by
    rw [count, reordered.lt_iff enough]
  have edges : (parent.coarsened second options).graph.edges =
      (parent.coarsened first options).graph.edges.map (Edge.renamed σ) :=
    edges_reorder reordered right.toPlaces
  refine ⟨parent?_coarsened.trans parent?_coarsened.symm,
    factors_coarsened.trans factors_coarsened.symm, count, known, ?_, ?_,
    get?_fixed_reorder reordered left right, edges, ?_⟩
  · intro c virtual read
    obtain ⟨o, found, kind⟩ := (isVirtual_ok one.inStep).mp read
    rw [origins_coarsened] at found
    obtain ⟨u, other, same⟩ := exists_sameOrigin reordered found
    rw [← origins_coarsened] at other
    exact ⟨(isVirtual_ok two.inStep).mpr ⟨u, other, same.isVirtual.trans kind⟩,
      fun virtual => same.kept (kind.trans virtual)⟩
  · intro c parents read
    obtain ⟨o, found, own⟩ := parentsOf_ok.mp read
    rw [origins_coarsened] at found
    obtain ⟨u, other, same⟩ := exists_sameOrigin reordered found
    rw [← origins_coarsened] at other
    exact ⟨u.parents, parentsOf_ok.mpr ⟨u, other, rfl⟩, own ▸ same.parents⟩
  · intro c inside
    rw [one.graph.incident_eq inside, two.graph.incident_eq ((known c).mpr inside), edges,
      Hypergraph.edgesAt_renamed]

theorem nodeWeights_reorder (exact : ExactAddition α) (left : parent.Accepts first)
    (right : parent.Accepts second) (graph : parent.graph.WellFormed) {c : NodeId}
    (inside : c < (parent.coarsened first options).graph.nodeCount) :
    (parent.coarsened second options).graph.nodeWeights (σ c) =
      (parent.coarsened first options).graph.nodeWeights c := by
  have renamed : Renamed σ (parent.coarsened first options) (parent.coarsened second options) :=
    left.renamed reordered right graph
  have known := (renamed.known c).mpr inside
  obtain ⟨o, read⟩ := (left.wellFormed graph).lt_nodeCount_iff.mp inside
  rw [origins_coarsened] at read
  obtain ⟨u, other, same⟩ := exists_sameOrigin reordered read
  rw [Hypergraph.nodeWeights_eq inside, Hypergraph.nodeWeights_eq known, weightsAt_of_origin read,
    weightsAt_of_origin other, same.weight exact]

end

/-- The order in which clusters and their members are listed decides nothing but the numbers of the
nodes that are not virtual, and the order in which weights are added. -/
theorem Reachable.coarsen_reordered [One α] (reached : parent.Reachable)
    (reordered : first.Reordered second σ) (options : CoarsenOptions) :
    ((∃ child, parent.coarsen first options = .ok child) ↔
      ∃ other, parent.coarsen second options = .ok other) ∧
    ∀ child other, parent.coarsen first options = .ok child →
      parent.coarsen second options = .ok other →
      Renamed σ child other ∧
      (ExactAddition α → ∀ c < child.graph.nodeCount,
        other.graph.nodeWeights (σ c) = child.graph.nodeWeights c) := by
  have graph := reached.wellFormed.graph
  constructor
  · constructor
    · rintro ⟨child, made⟩
      have accepts := ((coarsen_ok graph).mp made).1
      exact ⟨_, (accepts.reorder reordered).coarsen_eq graph⟩
    · rintro ⟨other, made⟩
      have accepts := ((coarsen_ok graph).mp made).1
      exact ⟨_, (accepts.reorder reordered.symm).coarsen_eq graph⟩
  · intro child other made again
    obtain ⟨left, rfl⟩ := (coarsen_ok graph).mp made
    obtain ⟨right, rfl⟩ := (coarsen_ok graph).mp again
    exact ⟨left.renamed reordered right graph,
      fun exact c inside => nodeWeights_reorder reordered exact left right graph inside⟩

/-- The ends of a row, of which one is fixed, are the second cluster or the first. The node between
them is virtual and has the last number either way. -/
theorem coarsen_reordered_line : ∃ l child other : Level Rat,
    (ofGraph (.line Rat)).setFixed [(3, 5)] = .ok l ∧
    l.coarsen [[1], [0, 3]] ⟨true⟩ = .ok child ∧ l.coarsen [[3, 0], [1]] ⟨true⟩ = .ok other ∧
    Renamed (Equiv.swap 0 1) child other ∧
    (∀ c < child.graph.nodeCount,
      other.graph.nodeWeights (Equiv.swap 0 1 c) = child.graph.nodeWeights c) ∧
    child.fixed.get? 1 = some 5 ∧ other.fixed.get? 0 = some 5 := by
  have fixed : (ofGraph (.line Rat)).setFixed [(3, 5)] = .ok _ := rfl
  have top : ((ofGraph (.line Rat)).withFixed [(3, 5)]).Reachable :=
    .setFixed (.ofGraph Hypergraph.reachable_line) fixed
  have reordered : Clustering.Reordered [[1], [0, 3]] [[3, 0], [1]] (Equiv.swap 0 1) := by
    refine ⟨rfl, fun c outside => ?_, by decide⟩
    have beyond : 2 ≤ c := outside
    exact Equiv.swap_apply_of_ne_of_ne (Nat.ne_of_gt (Nat.lt_of_lt_of_le Nat.two_pos beyond))
      (Nat.ne_of_gt beyond)
  obtain ⟨both, same⟩ := Reachable.coarsen_reordered top reordered ⟨true⟩
  obtain ⟨child, made⟩ := ok_of_isOk (x := ((ofGraph (.line Rat)).withFixed [(3, 5)]).coarsen
    [[1], [0, 3]] ⟨true⟩) (by decide +kernel)
  obtain ⟨other, again⟩ := both.mp ⟨child, made⟩
  obtain ⟨renamed, weights⟩ := same child other made again
  have held : child.fixed.get? 1 = some 5 := by
    obtain ⟨-, rfl⟩ := (coarsen_ok top.wellFormed.graph).mp made
    rfl
  exact ⟨_, child, other, fixed, made, again, renamed, weights exactAddition_rat, held,
    (renamed.fixed 1).trans held⟩

end Level
end Multilevel
