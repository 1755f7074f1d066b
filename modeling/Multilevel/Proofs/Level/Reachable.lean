import Multilevel.Proofs.Hypergraph.Reachable
import Multilevel.Proofs.Level.CoarsenByBlock

/-!
# Reachable levels

A program makes roots, changes them, fixes nodes, and coarsens any level it has. `WellFormed` is
what holds of every level it can come to: a node knows what it stands for, and no parent node
stands below two nodes of a child.
-/
namespace Multilevel.Level

variable {α : Type}

/-! ### The invariant -/

/-- What the nodes of a child may stand for. -/
structure StandsFor (origins : List Origin) (parent : Level α) : Prop where
  known : ∀ o ∈ origins, ∀ n ∈ o.parents, n < parent.graph.nodeCount
  real : ∀ o ∈ origins, o.isVirtual = false → ∀ n ∈ o.parents, ∀ u, parent.origins[n]? = some u →
    u.isVirtual = false

/-- The representation invariant. -/
structure WellFormed (l : Level α) : Prop where
  graph : l.graph.WellFormed
  inStep : l.tier.InStep
  fixed : ∀ entry ∈ l.fixed, entry.1 < l.graph.nodeCount
  root : l.parent? = none → ∀ o ∈ l.origins, o.parents = [] ∧ o.isVirtual = false
  child : ∀ parent, l.parent? = some parent → StandsFor l.origins parent
  /-- No parent is listed twice, neither by one node nor by two. -/
  once : (l.origins.flatMap Origin.parents).Nodup
  single : ∀ o ∈ l.origins, o.isVirtual = true → ∃ n, o.parents = [n]
  behind : ∀ (i j : NodeId) (o u : Origin), l.origins[i]? = some o → l.origins[j]? = some u →
    o.isVirtual = false → u.isVirtual = true → i < j

theorem WellFormed.origins {l : Level α} (wellFormed : l.WellFormed) :
    l.origins.length = l.graph.nodeCount :=
  wellFormed.inStep.length_origins

theorem WellFormed.lt_nodeCount_iff {l : Level α} (wellFormed : l.WellFormed) {n : NodeId} :
    n < l.graph.nodeCount ↔ ∃ o, l.origins[n]? = some o := by
  rw [← wellFormed.origins]
  constructor
  · intro known
    exact ⟨_, List.getElem?_eq_getElem known⟩
  · intro ⟨o, read⟩
    exact (List.getElem?_eq_some_iff.mp read).1

/-! ### Roots -/

theorem wellFormed_root {t : Tier α} (graph : t.graph.WellFormed) (inStep : t.InStep)
    (bare : ∀ o ∈ t.origins, o = ⟨[], false⟩) (known : ∀ entry ∈ t.fixed, entry.1 < t.graph.nodeCount) :
    (root t).WellFormed where
  graph := graph
  inStep := inStep
  fixed := known
  root _ o member := by
    obtain rfl := bare o member
    exact ⟨rfl, rfl⟩
  child _ parent := by cases parent
  once := by
    have none : t.origins.flatMap Origin.parents = [] :=
      List.flatMap_eq_nil_iff.mpr fun o member => by rw [bare o member]
    change (t.origins.flatMap Origin.parents).Nodup
    rw [none]
    exact List.nodup_nil
  single o member virtual := by
    obtain rfl := bare o member
    cases virtual
  behind i j o u _ read _ virtual := by
    obtain rfl := bare u (List.mem_of_getElem? read)
    cases virtual

theorem bare_of_root {t : Tier α} (wellFormed : (root t).WellFormed) :
    ∀ o ∈ t.origins, o = ⟨[], false⟩ := by
  intro o member
  obtain ⟨none, real⟩ := wellFormed.root rfl o member
  obtain ⟨parents, virtual⟩ := o
  exact congrArg₂ Origin.mk none real

theorem eq_ofGraph {t : Tier α} (wellFormed : (root t).WellFormed) (free : t.fixed = []) :
    root t = ofGraph t.graph := by
  have inStep : t.InStep := wellFormed.inStep
  have origins : t.origins = List.replicate t.graph.nodeCount ⟨[], false⟩ := by
    rw [← inStep.length_origins]
    exact List.eq_replicate_of_mem (bare_of_root wellFormed)
  have same := inStep.eq_ofOrigins
  rw [origins, free, Tier.ofOrigins, List.map_replicate, List.map_replicate] at same
  exact congrArg root same

theorem wellFormed_ofGraph {g : Hypergraph α} (graph : g.WellFormed) : (ofGraph g).WellFormed := by
  refine wellFormed_root graph ⟨List.length_replicate, List.length_replicate⟩ ?_ nofun
  intro o member
  obtain ⟨n, read⟩ := List.mem_iff_getElem?.mp member
  rw [Tier.getElem?_origins, List.getElem?_replicate, List.getElem?_replicate] at read
  split at read
  · exact (Option.some.inj read).symm
  · cases read

theorem root_of_addNode {l next : Level α} {weights : List α}
    (made : l.addNode weights = .ok next) :
    ∃ t u, l = root t ∧ t.addNode weights ⟨[], false⟩ = .ok u ∧ next = root u := by
  cases l with
  | child => cases made
  | root t =>
    obtain ⟨u, added, same⟩ := map_ok.mp made
    exact ⟨t, u, rfl, added, same.symm⟩

theorem root_of_addEdge {l next : Level α} {members : List NodeId} {weights : List α}
    (made : l.addEdge members weights = .ok next) :
    ∃ t u, l = root t ∧ t.addEdge members weights = .ok u ∧ next = root u := by
  cases l with
  | child => cases made
  | root t =>
    obtain ⟨u, added, same⟩ := map_ok.mp made
    exact ⟨t, u, rfl, added, same.symm⟩

theorem WellFormed.addNode [One α] {l next : Level α} {weights : List α} (wellFormed : l.WellFormed)
    (made : l.addNode weights = .ok next) : next.WellFormed := by
  obtain ⟨t, u, rfl, pushed, rfl⟩ := root_of_addNode made
  obtain ⟨inStep, origins⟩ := wellFormed.inStep.addNode pushed
  obtain ⟨g, added, rfl⟩ := Tier.addNode_ok.mp pushed
  have accepted : Hypergraph.Edit.apply t.graph (.addNode weights) = .ok g := added
  refine wellFormed_root (wellFormed.graph.apply accepted) inStep ?_ ?_
  · rw [origins]
    exact List.forall_mem_append.mpr ⟨bare_of_root wellFormed, by simp⟩
  · obtain ⟨-, rfl⟩ := Hypergraph.addNode_ok.mp added
    intro entry member
    have known : entry.1 < t.graph.nodeCount := wellFormed.fixed entry member
    exact Nat.lt_of_lt_of_le known (by simp [Hypergraph.nodeCount])

theorem WellFormed.addEdge [One α] {l next : Level α} {members : List NodeId} {weights : List α}
    (wellFormed : l.WellFormed) (made : l.addEdge members weights = .ok next) :
    next.WellFormed := by
  obtain ⟨t, u, rfl, pushed, rfl⟩ := root_of_addEdge made
  obtain ⟨inStep, origins⟩ := wellFormed.inStep.addEdge pushed
  obtain ⟨g, added, rfl⟩ := Tier.addEdge_ok.mp pushed
  have accepted : Hypergraph.Edit.apply t.graph (.addEdge members weights) = .ok g := added
  refine wellFormed_root (wellFormed.graph.apply accepted) inStep ?_ ?_
  · rw [origins]
    exact bare_of_root wellFormed
  · obtain ⟨-, rfl⟩ := (Hypergraph.addEdge_ok (e := ⟨weights, members⟩)).mp added
    intro entry member
    have known : entry.1 < t.graph.nodeCount := wellFormed.fixed entry member
    exact Nat.lt_of_lt_of_eq known List.length_mapIdx.symm

/-! ### Fixed nodes -/

def withFixed (l : Level α) (fixed : Fixed) : Level α :=
  match l with
  | root t => root { t with fixed }
  | child t parent => child { t with fixed } parent

@[simp] theorem graph_withFixed (l : Level α) (fixed : Fixed) :
    (l.withFixed fixed).graph = l.graph := by
  cases l <;> rfl

@[simp] theorem fixed_withFixed (l : Level α) (fixed : Fixed) :
    (l.withFixed fixed).fixed = fixed := by
  cases l <;> rfl

@[simp] theorem origins_withFixed (l : Level α) (fixed : Fixed) :
    (l.withFixed fixed).origins = l.origins := by
  cases l <;> rfl

@[simp] theorem parent?_withFixed (l : Level α) (fixed : Fixed) :
    (l.withFixed fixed).parent? = l.parent? := by
  cases l <;> rfl

theorem inStep_withFixed {l : Level α} (fixed : Fixed) (inStep : l.tier.InStep) :
    (l.withFixed fixed).tier.InStep := by
  cases l <;> exact ⟨inStep.parents, inStep.virtual⟩

theorem setFixed_ok {l next : Level α} {fixed : Fixed} : l.setFixed fixed = .ok next ↔
    (∀ entry ∈ fixed, entry.1 < l.graph.nodeCount) ∧ next = l.withFixed fixed := by
  unfold setFixed
  split
  · rename_i entry found
    obtain ⟨stranger, present⟩ := And.intro (List.find?_some found) (List.mem_of_find?_eq_some found)
    refine ⟨nofun, fun ⟨known, _⟩ => absurd (known _ present) ?_⟩
    simpa using stranger
  · rename_i none
    have known : ∀ entry ∈ fixed, entry.1 < l.graph.nodeCount := fun entry member => by
      simpa using List.find?_eq_none.mp none entry member
    cases l <;> simpa [withFixed, eq_comm] using fun _ => known

theorem WellFormed.withFixed {l : Level α} {fixed : Fixed} (wellFormed : l.WellFormed)
    (known : ∀ entry ∈ fixed, entry.1 < l.graph.nodeCount) : (l.withFixed fixed).WellFormed := by
  refine ⟨?_, inStep_withFixed fixed wellFormed.inStep, ?_, ?_, ?_, ?_, ?_, ?_⟩ <;>
    simp only [graph_withFixed, fixed_withFixed, origins_withFixed, parent?_withFixed]
  · exact wellFormed.graph
  · exact known
  · exact wellFormed.root
  · exact wellFormed.child
  · exact wellFormed.once
  · exact wellFormed.single
  · exact wellFormed.behind

/-! ### Children -/

section
variable {parent : Level α} {clusters : Clustering} {options : CoarsenOptions}

theorem childOrigins_default : parent.childOrigins clusters {} = clusters.map .cluster :=
  List.append_nil _

theorem getElem?_childOrigins_cluster {i : NodeId} {o : Origin}
    (read : (parent.childOrigins clusters options)[i]? = some o) (real : o.isVirtual = false) :
    ∃ members, clusters[i]? = some members ∧ o = .cluster members := by
  rw [childOrigins, Clustering.origins, List.getElem?_append, List.length_map] at read
  split at read
  · rw [List.getElem?_map] at read
    obtain ⟨members, present, rfl⟩ := Option.map_eq_some_iff.mp read
    exact ⟨members, present, rfl⟩
  · rw [List.getElem?_map] at read
    obtain ⟨n, -, rfl⟩ := Option.map_eq_some_iff.mp read
    cases real

theorem getElem?_childOrigins_boundary {i : NodeId} {o : Origin}
    (read : (parent.childOrigins clusters options)[i]? = some o) (virtual : o.isVirtual = true) :
    clusters.length ≤ i ∧ ∃ n, o = .boundary n := by
  rw [childOrigins, Clustering.origins, List.getElem?_append, List.length_map] at read
  split at read
  · rw [List.getElem?_map] at read
    obtain ⟨members, -, rfl⟩ := Option.map_eq_some_iff.mp read
    cases virtual
  · rename_i outside
    rw [List.getElem?_map] at read
    obtain ⟨n, -, rfl⟩ := Option.map_eq_some_iff.mp read
    exact ⟨Nat.le_of_not_lt outside, n, rfl⟩

theorem single_childOrigins : ∀ o ∈ parent.childOrigins clusters options, o.isVirtual = true →
    ∃ n, o.parents = [n] := by
  intro o member virtual
  obtain ⟨i, read⟩ := List.mem_iff_getElem?.mp member
  obtain ⟨-, n, rfl⟩ := getElem?_childOrigins_boundary read virtual
  exact ⟨n, rfl⟩

theorem behind_childOrigins {i j : NodeId} {o u : Origin}
    (left : (parent.childOrigins clusters options)[i]? = some o)
    (right : (parent.childOrigins clusters options)[j]? = some u) (real : o.isVirtual = false)
    (virtual : u.isVirtual = true) : i < j := by
  obtain ⟨members, clustered, -⟩ := getElem?_childOrigins_cluster left real
  have inside : i < clusters.length := (List.getElem?_eq_some_iff.mp clustered).1
  exact Nat.lt_of_lt_of_le inside (getElem?_childOrigins_boundary right virtual).1

theorem real_of_virtual {l : Level α} {n : NodeId} {o : Origin} (read : l.origins[n]? = some o)
    (real : l.tier.virtual[n]? ≠ some true) : o.isVirtual = false := by
  rw [origins, Tier.getElem?_origins] at read
  obtain ⟨parents, -, rfl⟩ := Option.map_eq_some_iff.mp read
  cases held : l.tier.virtual[n]? with
  | none => rfl
  | some virtual =>
    cases virtual with
    | false => rfl
    | true => exact absurd held real

theorem Places.standsFor (places : parent.Places clusters) (wellFormed : parent.graph.WellFormed) :
    StandsFor (parent.childOrigins clusters options) parent where
  known o present n listed :=
    places.known_childOrigins wellFormed n (List.mem_flatMap.mpr ⟨o, present, listed⟩)
  real o present real n listed u read := by
    obtain ⟨i, found⟩ := List.mem_iff_getElem?.mp present
    obtain ⟨members, clustered, rfl⟩ := getElem?_childOrigins_cluster found real
    have present : members ∈ clusters := List.mem_of_getElem? clustered
    have member : n ∈ clusters.flatten := List.mem_flatten.mpr ⟨members, present, listed⟩
    exact real_of_virtual read (places.real n member)

theorem wellFormed_of_mem_induced {origins : List Origin} {count : Nat} {d : Edge α}
    (wellFormed : parent.graph.WellFormed) (size : origins.length = count)
    (member : d ∈ parent.graph.edges.filterMap (induced clusters origins)) :
    d.WellFormed parent.graph.edgeDim count := by
  obtain ⟨e, present, kept⟩ := List.mem_filterMap.mp member
  rw [← size]
  exact wellFormed_induced (wellFormed.edges e present).weights kept

variable [Zero α] [Add α]

theorem Places.wellFormed_childGraph (places : parent.Places clusters)
    (wellFormed : parent.graph.WellFormed) :
    (parent.childGraph clusters options).WellFormed := by
  refine Hypergraph.Fits.wellFormed ⟨wellFormed.nodeFactor, wellFormed.edgeFactor, ?_, ?_⟩
  · rw [childWeights, List.forall_mem_append]
    constructor
    · exact List.forall_mem_map.mpr fun members present =>
        (weighs_together wellFormed places members present).length
    · exact List.forall_mem_map.mpr fun _ _ => Weight.length_zeros _
  · exact fun d member => wellFormed_of_mem_induced wellFormed length_childWeights.symm member

omit [Zero α] [Add α] in
/-- A child whose nodes stand for the clusters, and behind them for some of the external nodes. -/
theorem Places.wellFormed_child (places : parent.Places clusters) (fits : parent.graph.WellFormed)
    {t : Tier α} (graph : t.graph.WellFormed) (inStep : t.InStep)
    (fixed : t.fixed = parent.inherited 0 clusters)
    (same : t.origins = parent.childOrigins clusters options) : (child t parent).WellFormed := by
  have origins : (child t parent).origins = parent.childOrigins clusters options := same
  refine ⟨graph, inStep, ?_, nofun, ?_, ?_, ?_, ?_⟩
  · intro entry member
    change entry ∈ t.fixed at member
    rw [fixed] at member
    change entry.1 < t.graph.nodeCount
    rw [← inStep.length_origins, same, childOrigins, length_origins]
    have bound := (bounds_of_mem_inherited member).2
    rw [Nat.zero_add] at bound
    exact Nat.lt_of_lt_of_le bound (Nat.le_add_right _ _)
  · intro above same
    obtain rfl := Option.some.inj same
    rw [origins]
    exact places.standsFor fits
  · rw [origins]
    exact places.once_childOrigins
  · rw [origins]
    exact single_childOrigins
  · rw [origins]
    exact fun _ _ _ _ => behind_childOrigins

theorem Accepts.wellFormed (accepts : parent.Accepts clusters)
    (wellFormed : parent.graph.WellFormed) : (parent.coarsened clusters options).WellFormed :=
  accepts.wellFormed_child wellFormed (accepts.wellFormed_childGraph wellFormed)
    (Tier.inStep_ofOrigins (length_childWeights.symm.trans (Hypergraph.nodeCount_ofParts _ _ _).symm))
    rfl (Tier.origins_ofOrigins _ _ _)

theorem AcceptsByBlock.wellFormed {count : Nat} {p : Partition}
    (accepts : parent.AcceptsByBlock clusters count p) (wellFormed : parent.graph.WellFormed) :
    (parent.coarsenedByBlock clusters count p).WellFormed := by
  have graph : (parent.coarsenedByBlock clusters count p).graph.WellFormed := by
    refine Hypergraph.Fits.wellFormed ⟨?_, wellFormed.edgeFactor, ?_, ?_⟩
    · rw [← List.length_pos_iff, length_slotFactors]
      exact Nat.mul_pos accepts.positive (List.length_pos_iff.mpr wellFormed.nodeFactor)
    · exact List.forall_mem_map.mpr fun members present =>
        (weighs_slotsOf wellFormed accepts.toPlaces members present).length
    · intro d member
      rw [← induced_self] at member
      exact wellFormed_of_mem_induced wellFormed (by simp) member
  have same : (parent.coarsenedByBlock clusters count p).origins = parent.childOrigins clusters {} :=
    origins_coarsenedByBlock.trans childOrigins_default.symm
  exact accepts.wellFormed_child wellFormed graph (Tier.inStep_ofOrigins (by simp)) rfl same

end

/-! ### Runs -/

variable [Zero α] [One α] [Add α]

/-- The levels that a program can come to. -/
inductive Reachable : Level α → Prop
  | empty {factors : Factors α} {l : Level α} (made : Level.empty factors = .ok l) : Reachable l
  | ofGraph {g : Hypergraph α} (reached : g.Reachable) : Reachable (ofGraph g)
  | addNode {l next : Level α} {weights : List α} (reached : Reachable l)
    (made : l.addNode weights = .ok next) : Reachable next
  | addEdge {l next : Level α} {members : List NodeId} {weights : List α} (reached : Reachable l)
    (made : l.addEdge members weights = .ok next) : Reachable next
  | setFixed {l next : Level α} {fixed : Fixed} (reached : Reachable l)
    (made : l.setFixed fixed = .ok next) : Reachable next
  | coarsen {parent child : Level α} {clusters : Clustering} {options : CoarsenOptions}
    (reached : Reachable parent) (made : parent.coarsen clusters options = .ok child) :
    Reachable child
  | coarsenByBlock {parent child : Level α} {clusters : Clustering} {count : Nat} {p : Partition}
    (reached : Reachable parent) (made : parent.coarsenByBlock clusters count p = .ok child) :
    Reachable child

theorem Reachable.wellFormed {l : Level α} (reached : l.Reachable) : l.WellFormed := by
  induction reached with
  | empty made =>
    obtain ⟨g, start, rfl⟩ := map_ok.mp made
    exact wellFormed_ofGraph (Hypergraph.Reachable.empty start).wellFormed
  | ofGraph reached => exact wellFormed_ofGraph reached.wellFormed
  | addNode _ made ih => exact ih.addNode made
  | addEdge _ made ih => exact ih.addEdge made
  | setFixed _ made ih =>
    obtain ⟨known, rfl⟩ := setFixed_ok.mp made
    exact ih.withFixed known
  | coarsen _ made ih =>
    obtain ⟨accepts, rfl⟩ := (coarsen_ok ih.graph).mp made
    exact accepts.wellFormed ih.graph
  | coarsenByBlock _ made ih =>
    obtain ⟨accepts, rfl⟩ := (coarsenByBlock_ok ih.graph).mp made
    exact accepts.wellFormed ih.graph

theorem Reachable.parent {l parent : Level α} (reached : l.Reachable)
    (above : l.parent? = some parent) : parent.Reachable := by
  induction reached with
  | empty made =>
    obtain ⟨g, -, rfl⟩ := map_ok.mp made
    cases above
  | ofGraph => cases above
  | addNode _ made =>
    obtain ⟨_, _, -, -, rfl⟩ := root_of_addNode made
    cases above
  | addEdge _ made =>
    obtain ⟨_, _, -, -, rfl⟩ := root_of_addEdge made
    cases above
  | setFixed _ made ih =>
    obtain ⟨-, rfl⟩ := setFixed_ok.mp made
    exact ih (by rwa [parent?_withFixed] at above)
  | coarsen before made =>
    obtain ⟨-, rfl⟩ := (coarsen_ok before.wellFormed.graph).mp made
    obtain rfl := Option.some.inj above
    exact before
  | coarsenByBlock before made =>
    obtain ⟨-, rfl⟩ := (coarsenByBlock_ok before.wellFormed.graph).mp made
    obtain rfl := Option.some.inj above
    exact before

/-! ### What a caller reads -/

omit [Zero α] [One α] [Add α] in
theorem parentsOf_ok {l : Level α} {n : NodeId} {parents : List NodeId} :
    l.parentsOf n = .ok parents ↔ ∃ o, l.origins[n]? = some o ∧ o.parents = parents := by
  rw [parentsOf, origins, Tier.getElem?_origins]
  cases l.tier.parents[n]? <;> simp

omit [Zero α] [One α] [Add α] in
theorem parentsOf_eq {l : Level α} {n : NodeId} (known : n < l.origins.length) :
    l.parentsOf n = .ok (parentsAt l.origins n) := by
  have read : l.origins[n]? = some l.origins[n] := List.getElem?_eq_getElem known
  rw [parentsOf_ok, parentsAt, read]
  exact ⟨_, rfl, rfl⟩

omit [Zero α] [One α] [Add α] in
theorem lt_of_parentsOf {l : Level α} {n : NodeId} {parents : List NodeId}
    (read : l.parentsOf n = .ok parents) : n < l.origins.length := by
  obtain ⟨o, found, -⟩ := parentsOf_ok.mp read
  exact (List.getElem?_eq_some_iff.mp found).1

omit [Zero α] [One α] [Add α] in
theorem isVirtual_ok {l : Level α} (inStep : l.tier.InStep) {n : NodeId} {virtual : Bool} :
    l.isVirtual n = .ok virtual ↔ ∃ o, l.origins[n]? = some o ∧ o.isVirtual = virtual := by
  have read : l.tier.virtual[n]? = l.origins[n]?.map Origin.isVirtual := by
    rw [← List.getElem?_map, origins, inStep.map_isVirtual_origins]
  rw [isVirtual, read]
  cases l.origins[n]? <;> simp

/-- A node of a child and one of the parent nodes it stands for. -/
def Contains (l : Level α) (c n : NodeId) : Prop :=
  ∃ parents, l.parentsOf c = .ok parents ∧ n ∈ parents

omit [Zero α] [One α] [Add α] in
theorem contains_iff_owner {l : Level α} (once : (l.origins.flatMap Origin.parents).Nodup)
    {c n : NodeId} : l.Contains c n ↔ owner l.origins n = some c := by
  simp only [Contains, parentsOf_ok, owner_eq_some once]
  constructor
  · rintro ⟨_, ⟨o, read, rfl⟩, listed⟩
    exact ⟨o, read, listed⟩
  · intro ⟨o, read, listed⟩
    exact ⟨o.parents, ⟨o, read, rfl⟩, listed⟩

/-- What a caller finds out about the nodes of a level. -/
structure Lineage (l : Level α) : Prop where
  parents : l.tier.parents.length = l.graph.nodeCount
  virtual : l.tier.virtual.length = l.graph.nodeCount
  fixed : ∀ entry ∈ l.fixed, entry.1 < l.graph.nodeCount
  root : l.parent? = none → ∀ n < l.graph.nodeCount,
    l.parentsOf n = .ok [] ∧ l.isVirtual n = .ok false
  known : ∀ parent, l.parent? = some parent → ∀ n parents, l.parentsOf n = .ok parents →
    ∀ m ∈ parents, m < parent.graph.nodeCount
  once : ∀ n parents, l.parentsOf n = .ok parents → parents.Nodup
  apart : ∀ n k parents others, l.parentsOf n = .ok parents → l.parentsOf k = .ok others → n ≠ k →
    ∀ m ∈ parents, m ∉ others
  single : ∀ n, l.isVirtual n = .ok true → ∃ m, l.parentsOf n = .ok [m]
  behind : ∀ n k, l.isVirtual n = .ok false → l.isVirtual k = .ok true → n < k
  real : ∀ parent, l.parent? = some parent → ∀ n parents, l.isVirtual n = .ok false →
    l.parentsOf n = .ok parents → ∀ m ∈ parents, parent.isVirtual m = .ok false

/-- Whatever a program did before, the nodes of a child stand for different nodes of its parent,
the virtual ones behind the others and for one node each. -/
theorem Reachable.lineage {l : Level α} (reached : l.Reachable) : l.Lineage := by
  have wellFormed := reached.wellFormed
  constructor
  case parents => exact wellFormed.inStep.parents
  case virtual => exact wellFormed.inStep.virtual
  case fixed => exact wellFormed.fixed
  case root =>
    intro top n bound
    obtain ⟨o, read⟩ := wellFormed.lt_nodeCount_iff.mp bound
    obtain ⟨none, real⟩ := wellFormed.root top o (List.mem_of_getElem? read)
    exact ⟨parentsOf_ok.mpr ⟨o, read, none⟩, (isVirtual_ok wellFormed.inStep).mpr ⟨o, read, real⟩⟩
  all_goals simp only [parentsOf_ok, isVirtual_ok wellFormed.inStep]
  case known =>
    rintro parent above n _ ⟨o, read, rfl⟩
    exact (wellFormed.child parent above).known o (List.mem_of_getElem? read)
  case once =>
    rintro n _ ⟨o, read, rfl⟩
    exact (List.pairwise_flatMap.mp wellFormed.once).1 o (List.mem_of_getElem? read)
  case apart =>
    rintro n k _ _ ⟨o, left, rfl⟩ ⟨u, right, rfl⟩ different m first second
    exact different (index_unique wellFormed.once left right first second)
  case single =>
    rintro n ⟨o, read, virtual⟩
    obtain ⟨m, listed⟩ := wellFormed.single o (List.mem_of_getElem? read) virtual
    exact ⟨m, o, read, listed⟩
  case behind =>
    rintro n k ⟨o, left, real⟩ ⟨u, right, virtual⟩
    exact wellFormed.behind n k o u left right real virtual
  case real =>
    rintro parent above n _ ⟨o, read, real⟩ ⟨_, same, rfl⟩ m listed
    obtain rfl := Option.some.inj (read.symm.trans same)
    have child := wellFormed.child parent above
    have member := List.mem_of_getElem? read
    have aboveFits := (reached.parent above).wellFormed
    obtain ⟨u, held⟩ := aboveFits.lt_nodeCount_iff.mp (child.known o member m listed)
    exact (isVirtual_ok aboveFits.inStep).mpr ⟨u, held, child.real o member real m listed u held⟩

/-- One cluster of a row, and the node beside it as a virtual one. -/
theorem lineage_line : ∃ child : Level Float,
    (ofGraph (.line Float)).coarsen [[1, 0]] ⟨true⟩ = .ok child ∧
      child.parentsOf 0 = .ok [1, 0] ∧ child.isVirtual 1 = .ok true ∧ child.Lineage := by
  have made : (ofGraph (.line Float)).coarsen [[1, 0]] ⟨true⟩ = .ok _ := rfl
  exact ⟨_, made, rfl, rfl, Reachable.lineage (.coarsen (.ofGraph Hypergraph.reachable_line) made)⟩

end Multilevel.Level
