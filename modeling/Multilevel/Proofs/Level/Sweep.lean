import Multilevel.Proofs.Level.Placement
import Multilevel.Proofs.Weight

/-!
# Sweeps over hyperedges

A child makes its hyperedges in one sweep over those of the parent, and its virtual nodes on the
way. An edge is made from the placement as it is when the sweep comes to it, which later edges
extend. No edge would come out otherwise at the end (`induced_of_prefix`): all members of an edge
are placed by the time it is made. So a sweep makes the image of each edge along the last placement
(`Swept.foldlM_addImage`).
-/
namespace Multilevel

/-- What the nodes of a child stand for where some external nodes were met. -/
def Clustering.origins (clusters : Clustering) (met : List NodeId) : List Origin :=
  clusters.map .cluster ++ met.map .boundary

namespace Level

variable {α : Type} {clusters : Clustering} {met : List NodeId}

theorem flatMap_parents_origins (clusters : Clustering) (met : List NodeId) :
    (clusters.origins met).flatMap Origin.parents = clusters.flatten ++ met := by
  rw [Clustering.origins, List.flatMap_append, flatMap_parents_cluster, flatMap_parents_boundary]

theorem length_origins (clusters : Clustering) (met : List NodeId) :
    (clusters.origins met).length = clusters.length + met.length := by
  rw [Clustering.origins, List.length_append, List.length_map, List.length_map]

theorem origins_nil (clusters : Clustering) : clusters.origins [] = clusters.map .cluster :=
  List.append_nil _

theorem origins_append (clusters : Clustering) (met more : List NodeId) :
    clusters.origins (met ++ more) = clusters.origins met ++ more.map .boundary := by
  rw [Clustering.origins, Clustering.origins, List.map_append, List.append_assoc]

/-! ### What becomes of an edge -/

/-- What becomes of a parent edge: its image, if it has a clustered member and spans two nodes of
the child. -/
def induced (clusters : Clustering) (origins : List Origin) (e : Edge α) : Option (Edge α) :=
  if clusters.touches e then e.along (owner origins) else none

/-- Without virtual nodes, an edge that no cluster touches has no image anyway. -/
theorem induced_self (clusters : Clustering) :
    (induced clusters (clusters.map .cluster) : Edge α → Option (Edge α)) =
      Edge.along (owner (clusters.map .cluster)) := by
  funext e
  unfold induced
  split
  · rfl
  · rename_i apart
    have none : e.members.filterMap (owner (clusters.map .cluster)) = [] := by
      refine List.filterMap_eq_nil_iff.mpr fun n member => owner_eq_none.mpr fun listed => apart ?_
      rw [flatMap_parents_cluster] at listed
      exact List.any_eq_true.mpr ⟨n, member, decide_eq_true listed⟩
    have lost : ¬ 1 < (e.imageAlong (owner (clusters.map .cluster))).length := by
      simp [Edge.imageAlong, none, Ordered.ofList]
    rw [Edge.along, if_neg lost]

theorem wellFormed_along {dim : Nat} {origins : List Origin} {e d : Edge α}
    (weights : e.weights.length = dim) (kept : e.along (owner origins) = some d) :
    d.WellFormed dim origins.length := by
  obtain ⟨spans, rfl⟩ := Edge.along_eq_some.mp kept
  refine ⟨weights, Ordered.increasing_ofList _, spans, fun c member => ?_⟩
  obtain ⟨n, -, reached⟩ := Edge.mem_imageAlong.mp member
  exact lt_of_owner reached

theorem wellFormed_induced {dim : Nat} {origins : List Origin} {e d : Edge α}
    (weights : e.weights.length = dim) (kept : induced clusters origins e = some d) :
    d.WellFormed dim origins.length := by
  unfold induced at kept
  split at kept
  · exact wellFormed_along weights kept
  · cases kept

theorem addEdge_ofOrigins {factors : Factors α} {weights : List (List α)} {edges : List (Edge α)}
    {origins : List Origin} {fixed : Fixed} {d : Edge α}
    (wellFormed : d.WellFormed factors.edge.length weights.length) :
    (Tier.ofOrigins (.ofParts factors weights edges) origins fixed).addEdge d.members d.weights =
      .ok (.ofOrigins (.ofParts factors weights (edges ++ [d])) origins fixed) := by
  have same := wellFormed.canonical
  refine Tier.addEdge_ok.mpr ⟨_, Hypergraph.addEdge_ofParts.mpr ⟨?_, rfl⟩, ?_⟩
  · rw [same]
    exact wellFormed
  · rw [same]
    rfl

/-! ### Meeting external nodes -/

theorem owner_append_of_some {origins others : List Origin} {n c : NodeId}
    (found : owner origins n = some c) : owner (origins ++ others) n = some c := by
  unfold owner at found ⊢
  rw [List.findIdx?_append, found]
  rfl

theorem lt_length_iff_owner_cluster {n c : NodeId} :
    owner (clusters.origins met) n = some c ∧ c < clusters.length ↔
      owner (clusters.map .cluster) n = some c := by
  unfold Clustering.origins owner
  rw [List.findIdx?_append]
  cases found : (clusters.map Origin.cluster).findIdx? fun o => decide (n ∈ o.parents) with
  | some i =>
    have bound := lt_of_owner found
    rw [List.length_map] at bound
    simp only [Option.some_or, Option.some.injEq, and_iff_left_iff_imp]
    exact fun same => same ▸ bound
  | none =>
    simp only [Option.none_or, Option.map_eq_some_iff, List.length_map, reduceCtorEq, iff_false]
    rintro ⟨⟨i, -, rfl⟩, bound⟩
    exact Nat.not_lt.mpr (Nat.le_add_left _ _) bound

theorem meet_eq_append (met : List NodeId) (n : NodeId) :
    ∃ more, meet met n = met ++ more ∧ ∀ m, m ∈ meet met n ↔ m ∈ met ∨ m = n := by
  unfold meet
  split
  · rename_i present
    refine ⟨[], (List.append_nil _).symm, fun m => (or_iff_left_of_imp ?_).symm⟩
    rintro rfl
    exact present
  · exact ⟨[n], rfl, fun m => by simp⟩

theorem foldl_meet_eq_append (nodes met : List NodeId) :
    ∃ more, nodes.foldl meet met = met ++ more := by
  induction nodes generalizing met with
  | nil => exact ⟨[], (List.append_nil _).symm⟩
  | cons n nodes ih =>
    obtain ⟨first, same, -⟩ := meet_eq_append met n
    obtain ⟨more, rest⟩ := ih (meet met n)
    exact ⟨first ++ more, by rw [List.foldl_cons, rest, same, List.append_assoc]⟩

theorem mem_foldl_meet {nodes met : List NodeId} {m : NodeId} :
    m ∈ nodes.foldl meet met ↔ m ∈ met ∨ m ∈ nodes := by
  induction nodes generalizing met with
  | nil => simp
  | cons n nodes ih =>
    obtain ⟨-, -, member⟩ := meet_eq_append met n
    rw [List.foldl_cons, ih, member, List.mem_cons, or_assoc]

/-- Parent nodes that all exist, and of which no two nodes of a child stand for the same. -/
structure Placeable (count : Nat) (origins : List Origin) : Prop where
  once : (origins.flatMap Origin.parents).Nodup
  known : ∀ n ∈ origins.flatMap Origin.parents, n < count

theorem Placeable.meet {count : Nat} (placeable : Placeable count (clusters.origins met))
    {n : NodeId} (external : n ∉ clusters.flatten) (known : n < count) :
    Placeable count (clusters.origins (meet met n)) := by
  obtain ⟨once, bounds⟩ := placeable
  unfold Level.meet
  split
  · exact ⟨once, bounds⟩
  · rename_i fresh
    rw [flatMap_parents_origins] at once bounds
    constructor <;> rw [flatMap_parents_origins, ← List.append_assoc]
    · refine List.nodup_append.mpr ⟨once, List.nodup_singleton n, fun m listed k last same => ?_⟩
      obtain rfl := List.mem_singleton.mp last
      subst same
      exact (List.mem_append.mp listed).elim external fresh
    · exact List.forall_mem_append.mpr ⟨bounds, by simpa using known⟩

/-! ### The state of a sweep -/

def sweepAt [Zero α] (factors : Factors α) (weights : List (List α)) (fixed : Fixed) (count : Nat)
    (clusters : Clustering) (met : List NodeId) (edges : List (Edge α)) : Sweep α :=
  ⟨.ofOrigins (.ofParts factors (weights ++ met.map fun _ => Weight.zeros factors.node.length) edges)
      (clusters.origins met) fixed,
    placed (clusters.origins met) count⟩

theorem sweepAt_nil [Zero α] (factors : Factors α) (weights : List (List α)) (fixed : Fixed)
    (count : Nat) (clusters : Clustering) : sweepAt factors weights fixed count clusters [] [] =
      ⟨.ofOrigins (.ofParts factors weights []) (clusters.map .cluster) fixed,
        placed (clusters.map .cluster) count⟩ := by
  rw [sweepAt, origins_nil, List.map_nil, List.append_nil]

/-- What a sweep keeps to: its nodes can be placed, none of them is virtual unless the boundary is to
be kept, and the edges made so far fit the nodes made so far. -/
structure Swept (options : CoarsenOptions) (factors : Factors α) (weights : List (List α))
    (count : Nat) (clusters : Clustering) (met : List NodeId) (edges : List (Edge α)) : Prop where
  placeable : Placeable count (clusters.origins met)
  plain : options.keepBoundary = false → met = []
  size : weights.length = clusters.length
  fits : ∀ d ∈ edges, d.WellFormed factors.edge.length (clusters.origins met).length

section
variable {factors : Factors α} {weights : List (List α)} {count : Nat} {edges : List (Edge α)}
  {options : CoarsenOptions}

theorem Swept.meet_external (swept : Swept options factors weights count clusters met edges)
    (keep : options.keepBoundary = true) {n : NodeId} (external : n ∉ clusters.flatten)
    (known : n < count) :
    Swept options factors weights count clusters (meet met n) edges := by
  refine ⟨swept.placeable.meet external known, fun drop => absurd keep (Bool.eq_false_iff.mp drop),
    swept.size, fun d member => (swept.fits d member).mono ?_⟩
  obtain ⟨more, same, -⟩ := meet_eq_append met n
  rw [same, origins_append, List.length_append]
  exact Nat.le_add_right _ _

theorem Swept.addEdges (swept : Swept options factors weights count clusters met edges)
    {others : List (Edge α)}
    (fits : ∀ d ∈ others, d.WellFormed factors.edge.length (clusters.origins met).length) :
    Swept options factors weights count clusters met (edges ++ others) :=
  ⟨swept.placeable, swept.plain, swept.size, List.forall_mem_append.mpr ⟨swept.fits, fits⟩⟩

end

section
variable [Zero α] {factors : Factors α} {weights : List (List α)} (fixed : Fixed) {count : Nat}
  {edges : List (Edge α)} {spanned : List NodeId} {options : CoarsenOptions}

theorem reach_of_some {s : Sweep α} {n c : NodeId} (held : s.placement.node? n = some c) :
    Sweep.reach (s, spanned) n = .ok (s, Ordered.insert c spanned) := by
  simp only [Sweep.reach, held]

theorem reach_of_none {s : Sweep α} {n : NodeId} {child : Tier α}
    (free : s.placement.node? n = none)
    (added : s.child.addNode (Weight.zeros s.child.graph.nodeDim) (.boundary n) = .ok child) :
    Sweep.reach (s, spanned) n =
      .ok (⟨child, s.placement.set n (some s.child.graph.nodeCount)⟩,
        Ordered.insert s.child.graph.nodeCount spanned) := by
  simp only [Sweep.reach, free, added]
  rfl

theorem Swept.length_weights (swept : Swept options factors weights count clusters met edges) :
    (weights ++ met.map fun _ => (Weight.zeros factors.node.length : List α)).length =
      (clusters.origins met).length := by
  rw [List.length_append, List.length_map, swept.size, length_origins]

theorem Swept.nodeCount (swept : Swept options factors weights count clusters met edges) :
    (sweepAt factors weights fixed count clusters met edges).child.graph.nodeCount =
      (clusters.origins met).length :=
  (Hypergraph.nodeCount_ofParts _ _ _).trans swept.length_weights

/-- A node that is met for the first time comes behind the others. -/
theorem Swept.addNode (swept : Swept options factors weights count clusters met edges) (n : NodeId) :
    (sweepAt factors weights fixed count clusters met edges).child.addNode
        (Weight.zeros factors.node.length) (.boundary n) =
      .ok (sweepAt factors weights fixed count clusters (met ++ [n]) edges).child := by
  have known : ∀ d ∈ edges, ∀ m ∈ d.members,
      m < (weights ++ met.map fun _ => (Weight.zeros factors.node.length : List α)).length := by
    intro d member m spans
    rw [swept.length_weights]
    exact (swept.fits d member).known m spans
  refine Tier.addNode_ofOrigins.mpr
    ⟨_, (Hypergraph.addNode_ofParts known).mpr ⟨Weight.length_zeros _, rfl⟩, ?_⟩
  simp only [sweepAt, origins_append, List.map_append, List.map_singleton, List.append_assoc]

theorem Swept.node?_placement (swept : Swept options factors weights count clusters met edges)
    (n : NodeId) :
    (sweepAt factors weights fixed count clusters met edges).placement.node? n =
      owner (clusters.origins met) n :=
  node?_placed swept.placeable.once swept.placeable.known n

theorem Swept.reach_eq (swept : Swept options factors weights count clusters met edges)
    (spanned : List NodeId) {n : NodeId} (external : n ∉ clusters.flatten) :
    ∃ c, owner (clusters.origins (meet met n)) n = some c ∧
      Sweep.reach (sweepAt factors weights fixed count clusters met edges, spanned) n =
        .ok (sweepAt factors weights fixed count clusters (meet met n) edges,
          Ordered.insert c spanned) := by
  have place := swept.node?_placement fixed n
  cases found : owner (clusters.origins met) n with
  | some c =>
    have present : n ∈ met := by
      obtain ⟨o, read, listed⟩ := mem_of_owner found
      have member := List.mem_flatMap.mpr ⟨o, List.mem_of_getElem? read, listed⟩
      rw [flatMap_parents_origins] at member
      exact (List.mem_append.mp member).resolve_left external
    rw [meet, if_pos present]
    exact ⟨c, found, reach_of_some (place.trans found)⟩
  | none =>
    have fresh : n ∉ met := by
      have absent := owner_eq_none.mp found
      rw [flatMap_parents_origins] at absent
      exact fun present => absent (List.mem_append_right _ present)
    have own : owner (clusters.origins (met ++ [n])) n = some (clusters.origins met).length := by
      unfold owner at found ⊢
      rw [origins_append, List.findIdx?_append, found]
      simp [Origin.boundary]
    rw [meet, if_neg fresh]
    refine ⟨_, own, (reach_of_none (place.trans found) (swept.addNode fixed n)).trans ?_⟩
    rw [swept.nodeCount fixed]
    simp only [sweepAt, origins_append, List.map_singleton, placed_concat_boundary]

theorem Swept.foldlM_reach (swept : Swept options factors weights count clusters met edges)
    (keep : options.keepBoundary = true) {nodes : List NodeId}
    (external : ∀ n ∈ nodes, n ∉ clusters.flatten) (known : ∀ n ∈ nodes, n < count)
    (increasing : spanned.Pairwise (· < ·)) :
    Swept options factors weights count clusters (nodes.foldl meet met) edges ∧
    ∃ reached : List NodeId,
      nodes.foldlM Sweep.reach (sweepAt factors weights fixed count clusters met edges, spanned) =
        .ok (sweepAt factors weights fixed count clusters (nodes.foldl meet met) edges, reached) ∧
      reached.Pairwise (· < ·) ∧
      ∀ c, c ∈ reached ↔ c ∈ spanned ∨
        ∃ n ∈ nodes, owner (clusters.origins (nodes.foldl meet met)) n = some c := by
  induction nodes generalizing met spanned with
  | nil => exact ⟨swept, spanned, rfl, increasing, fun c => by simp⟩
  | cons n nodes ih =>
    obtain ⟨outside, others⟩ := List.forall_mem_cons.mp external
    obtain ⟨bound, bounds⟩ := List.forall_mem_cons.mp known
    obtain ⟨c, own, first⟩ := swept.reach_eq fixed spanned outside
    obtain ⟨rest, reached, loop, ordered, members⟩ := ih (swept.meet_external keep outside bound) others
      bounds (Ordered.increasing_insert (a := c) increasing)
    refine ⟨rest, reached, ?_, ordered, fun d => ?_⟩
    · rw [List.foldlM_cons, first]
      exact loop
    · -- the node reached first is still found under its number at the end
      obtain ⟨more, same⟩ := foldl_meet_eq_append nodes (meet met n)
      have still : owner (clusters.origins (nodes.foldl meet (meet met n))) n = some c := by
        rw [same, origins_append]
        exact owner_append_of_some own
      rw [members, Ordered.mem_insert, List.foldl_cons, List.exists_mem_cons_iff, still,
        Option.some.injEq, eq_comm (a := d), or_left_comm, or_assoc]

/-! ### One edge -/

/-- The external nodes that are met when an edge is done with. -/
def metBy (options : CoarsenOptions) (clusters : Clustering) (met : List NodeId) (e : Edge α) :
    List NodeId :=
  if options.keepBoundary then (externals clusters e.members).foldl meet met else met

theorem Swept.cluster? (swept : Swept options factors weights count clusters met edges)
    (n : NodeId) :
    ((sweepAt factors weights fixed count clusters met edges).placement.node? n).filter
      (· < clusters.length) = owner (clusters.map .cluster) n := by
  rw [swept.node?_placement fixed]
  apply Option.ext
  intro c
  rw [Option.filter_eq_some_iff, decide_eq_true_eq]
  exact lt_length_iff_owner_cluster

omit [Zero α] in
theorem isNone_owner_cluster (clusters : Clustering) (n : NodeId) :
    (owner (clusters.map .cluster) n).isNone = decide (n ∉ clusters.flatten) := by
  rw [← Option.not_isSome, isSome_owner, flatMap_parents_cluster, decide_not]

omit [Zero α] in
theorem isEmpty_imageAlong_cluster (clusters : Clustering) (e : Edge α) :
    (e.imageAlong (owner (clusters.map .cluster))).isEmpty = !clusters.touches e := by
  rw [Bool.eq_iff_iff, List.isEmpty_iff, Bool.not_eq_true', ← Bool.not_eq_true,
    Clustering.touches, List.any_eq_true, List.eq_nil_iff_forall_not_mem]
  simp only [Edge.mem_imageAlong, decide_eq_true_eq, ← flatMap_parents_cluster clusters]
  constructor
  · rintro none ⟨n, member, listed⟩
    cases own : owner (clusters.map .cluster) n with
    | none => exact owner_eq_none.mp own listed
    | some c => exact none c ⟨n, member, own⟩
  · rintro apart c ⟨n, member, own⟩
    obtain ⟨o, read, listed⟩ := mem_of_owner own
    exact apart ⟨n, member, List.mem_flatMap.mpr ⟨o, List.mem_of_getElem? read, listed⟩⟩

def spannedBy (clusters : Clustering) (origins : List Origin) (e : Edge α) : List NodeId :=
  if clusters.touches e then e.imageAlong (owner origins) else []

omit [Zero α] in
theorem induced_eq_spannedBy (clusters : Clustering) (origins : List Origin) (e : Edge α) :
    induced clusters origins e = if 1 < (spannedBy clusters origins e).length then
      some ⟨e.weights, spannedBy clusters origins e⟩ else none := by
  unfold induced spannedBy
  split
  · rfl
  · simp

omit [Zero α] in
/-- Reaching the members outside all clusters completes the image of an edge. -/
theorem imageAlong_of_reached {e : Edge α} {reached : List NodeId}
    (increasing : reached.Pairwise (· < ·))
    (members : ∀ c, c ∈ reached ↔ c ∈ e.imageAlong (owner (clusters.map .cluster)) ∨
      ∃ n ∈ e.members.filter fun n => decide (n ∉ clusters.flatten),
        owner (clusters.origins met) n = some c) :
    reached = e.imageAlong (owner (clusters.origins met)) := by
  refine Ordered.eq_of_mem_iff increasing (Ordered.increasing_ofList _) fun c => ?_
  change _ ↔ c ∈ e.imageAlong _
  rw [members, Edge.mem_imageAlong, Edge.mem_imageAlong]
  constructor
  · rintro (⟨n, member, own⟩ | ⟨n, listed, own⟩)
    · exact ⟨n, member, owner_append_of_some own⟩
    · exact ⟨n, (List.mem_filter.mp listed).1, own⟩
  · rintro ⟨n, member, own⟩
    by_cases inside : n ∈ clusters.flatten
    · rw [← flatMap_parents_cluster] at inside
      cases first : owner (clusters.map .cluster) n with
      | none => exact absurd inside (owner_eq_none.mp first)
      | some d =>
        have same : some d = some c := (owner_append_of_some first).symm.trans own
        exact .inl ⟨n, member, first.trans same⟩
    · exact .inr ⟨n, List.mem_filter.mpr ⟨member, decide_eq_true inside⟩, own⟩

theorem Swept.span (swept : Swept options factors weights count clusters met edges) (e : Edge α) :
    (sweepAt factors weights fixed count clusters met edges).span options clusters.length e =
      if options.keepBoundary && clusters.touches e then
        (e.members.filter fun n => decide (n ∉ clusters.flatten)).foldlM Sweep.reach
          (sweepAt factors weights fixed count clusters met edges,
            e.imageAlong (owner (clusters.map .cluster)))
      else .ok (sweepAt factors weights fixed count clusters met edges,
        e.imageAlong (owner (clusters.map .cluster))) := by
  unfold Sweep.span
  simp only [swept.cluster? fixed, isNone_owner_cluster]
  change (if (options.keepBoundary &&
    !(e.imageAlong (owner (clusters.map .cluster))).isEmpty && _) = true then _ else _) = _
  rw [isEmpty_imageAlong_cluster, Bool.not_not]
  cases none : e.members.filter fun n => decide (n ∉ clusters.flatten) with
  | nil =>
    rw [List.isEmpty_nil, Bool.not_true, Bool.and_false, if_neg Bool.false_ne_true]
    exact (ite_self _).symm
  | cons =>
    rw [List.isEmpty_cons, Bool.not_false, Bool.and_true]
    rfl

/-- An edge spans its image along the placement that the sweep has when it is done with the edge. -/
theorem Swept.span_eq (swept : Swept options factors weights count clusters met edges) {e : Edge α}
    (known : ∀ n ∈ e.members, n < count) :
    Swept options factors weights count clusters (metBy options clusters met e) edges ∧
    (sweepAt factors weights fixed count clusters met edges).span options clusters.length e =
      .ok (sweepAt factors weights fixed count clusters (metBy options clusters met e) edges,
        spannedBy clusters (clusters.origins (metBy options clusters met e)) e) := by
  have touches := isEmpty_imageAlong_cluster clusters e
  rw [swept.span fixed]
  by_cases touched : clusters.touches e = true
  · have externals : externals clusters e.members =
        e.members.filter fun n => decide (n ∉ clusters.flatten) := if_pos touched
    rw [metBy, spannedBy, if_pos touched, touched, Bool.and_true, externals]
    by_cases keep : options.keepBoundary = true
    · rw [if_pos keep, if_pos keep]
      obtain ⟨after, reached, loop, ordered, members⟩ := swept.foldlM_reach fixed keep
        (fun n listed => of_decide_eq_true (List.mem_filter.mp listed).2)
        (fun n listed => known n (List.mem_filter.mp listed).1)
        (Ordered.increasing_ofList (e.members.filterMap (owner (clusters.map .cluster))))
      exact ⟨after, by rw [← imageAlong_of_reached ordered members]; exact loop⟩
    · obtain rfl := swept.plain (Bool.eq_false_iff.mpr keep)
      rw [if_neg keep, if_neg keep]
      exact ⟨swept, by rw [origins_nil]⟩
  · have externals : externals clusters e.members = [] := if_neg touched
    have apart := Bool.eq_false_iff.mpr touched
    rw [apart, Bool.not_false, List.isEmpty_iff] at touches
    rw [metBy, spannedBy, if_neg touched, apart, Bool.and_false, externals, List.foldl_nil, ite_self,
      touches]
    exact ⟨swept, rfl⟩

theorem Swept.addEdge (swept : Swept options factors weights count clusters met edges)
    {d : Edge α} (wellFormed : d.WellFormed factors.edge.length (clusters.origins met).length) :
    (sweepAt factors weights fixed count clusters met edges).child.addEdge d.members d.weights =
      .ok (sweepAt factors weights fixed count clusters met (edges ++ [d])).child := by
  refine addEdge_ofOrigins ?_
  rwa [swept.length_weights]

/-- A sweep makes the image of an edge along the placement that it has when it is done with it. -/
theorem Swept.addImage_eq (swept : Swept options factors weights count clusters met edges)
    {e : Edge α} (wellFormed : e.WellFormed factors.edge.length count) :
    Swept options factors weights count clusters (metBy options clusters met e)
      (edges ++ (induced clusters (clusters.origins (metBy options clusters met e)) e).toList) ∧
    (sweepAt factors weights fixed count clusters met edges).addImage options clusters.length e =
      .ok (sweepAt factors weights fixed count clusters (metBy options clusters met e)
        (edges ++ (induced clusters (clusters.origins (metBy options clusters met e)) e).toList)) := by
  obtain ⟨after, spans⟩ := swept.span_eq fixed wellFormed.known
  refine ⟨after.addEdges fun d member =>
    wellFormed_induced wellFormed.weights (Option.mem_toList.mp member), ?_⟩
  have kept := induced_eq_spannedBy clusters
    (clusters.origins (metBy options clusters met e)) e
  unfold Sweep.addImage
  rw [spans]
  by_cases large : 1 < (spannedBy clusters (clusters.origins (metBy options clusters met e)) e).length
  · rw [if_pos large] at kept
    have made := after.addEdge fixed (wellFormed_induced wellFormed.weights kept)
    rw [kept]
    change (if 1 < _ then _ else _) = _
    rw [if_pos large]
    rw [made]
    rfl
  · rw [if_neg large] at kept
    rw [kept, Option.toList_none, List.append_nil]
    exact if_neg large

/-! ### All edges -/

omit [Zero α] in
theorem foldl_metBy_eq_append (options : CoarsenOptions) (clusters : Clustering)
    (others : List (Edge α)) (met : List NodeId) :
    ∃ more, others.foldl (metBy options clusters) met = met ++ more ∧
      (options.keepBoundary = false → more = []) := by
  induction others generalizing met with
  | nil => exact ⟨[], (List.append_nil _).symm, fun _ => rfl⟩
  | cons e others ih =>
    obtain ⟨more, rest, plain⟩ := ih (metBy options clusters met e)
    rw [List.foldl_cons, rest]
    cases keep : options.keepBoundary with
    | false => exact ⟨more, by simp [metBy, keep], fun _ => plain keep⟩
    | true =>
      obtain ⟨first, same⟩ := foldl_meet_eq_append (externals clusters e.members) met
      exact ⟨first ++ more, by simp [metBy, keep, same], nofun⟩

omit [Zero α] in
/-- Nodes that are met after an edge make no difference to its image. -/
theorem induced_of_prefix {e : Edge α} {more : List NodeId}
    (plain : options.keepBoundary = false → more = []) :
    induced clusters (clusters.origins (metBy options clusters met e ++ more)) e =
      induced clusters (clusters.origins (metBy options clusters met e)) e := by
  unfold induced
  by_cases touched : clusters.touches e = true
  · rw [if_pos touched, if_pos touched]
    refine Edge.along_congr fun n member => ?_
    cases keep : options.keepBoundary with
    | false => rw [plain keep, List.append_nil]
    | true =>
      -- a member is in a cluster, or was met with this edge at the latest
      have listed : n ∈ (clusters.origins (metBy options clusters met e)).flatMap Origin.parents := by
        rw [flatMap_parents_origins, List.mem_append, metBy, if_pos keep, mem_foldl_meet,
          mem_externals]
        by_cases inside : n ∈ clusters.flatten
        · exact .inl inside
        · exact .inr (.inr ⟨inside, touched, member⟩)
      cases own : owner (clusters.origins (metBy options clusters met e)) n with
      | none => exact absurd listed (owner_eq_none.mp own)
      | some c => rw [origins_append, owner_append_of_some own]
  · rw [if_neg touched, if_neg touched]

/-- A sweep makes the images of the edges along the placement that it ends with. -/
theorem Swept.foldlM_addImage (swept : Swept options factors weights count clusters met edges)
    {others : List (Edge α)} (wellFormed : ∀ e ∈ others, e.WellFormed factors.edge.length count) :
    others.foldlM (Sweep.addImage options clusters.length)
        (sweepAt factors weights fixed count clusters met edges) =
      .ok (sweepAt factors weights fixed count clusters (others.foldl (metBy options clusters) met)
        (edges ++ others.filterMap
          (induced clusters (clusters.origins (others.foldl (metBy options clusters) met))))) := by
  induction others generalizing met edges with
  | nil =>
    rw [List.foldlM_nil, List.filterMap_nil, List.append_nil]
    rfl
  | cons e others ih =>
    obtain ⟨first, rest⟩ := List.forall_mem_cons.mp wellFormed
    obtain ⟨after, step⟩ := swept.addImage_eq fixed first
    obtain ⟨more, ends, none⟩ := foldl_metBy_eq_append options clusters others
      (metBy options clusters met e)
    rw [List.foldlM_cons, step]
    refine (ih after rest).trans ?_
    rw [List.foldl_cons, List.filterMap_cons, ends, induced_of_prefix none]
    cases induced clusters (clusters.origins (metBy options clusters met e)) e <;> simp

theorem sweep_eq (options : CoarsenOptions) {others : List (Edge α)}
    (placeable : Placeable count (clusters.map .cluster)) (size : weights.length = clusters.length)
    (wellFormed : ∀ e ∈ others, e.WellFormed factors.edge.length count) :
    others.foldlM (Sweep.addImage options clusters.length)
        ⟨.ofOrigins (.ofParts factors weights []) (clusters.map .cluster) fixed,
          placed (clusters.map .cluster) count⟩ =
      .ok (sweepAt factors weights fixed count clusters (others.foldl (metBy options clusters) [])
        (others.filterMap
          (induced clusters (clusters.origins (others.foldl (metBy options clusters) []))))) := by
  rw [← sweepAt_nil]
  rw [← origins_nil] at placeable
  have swept : Swept options factors weights count clusters [] [] :=
    ⟨placeable, fun _ => rfl, size, nofun⟩
  exact swept.foldlM_addImage fixed wellFormed

end
end Level
end Multilevel
