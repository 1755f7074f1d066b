import Multilevel.Proofs.Level.Sweep

/-!
# Children

What coarsening accepts and the child that it then makes, in closed form: clusters have to be
placed and agree on their fixed blocks (`Accepts`), and the child has the graph that the sums over
the clusters and the induced hyperedges make (`coarsen_ok`, `coarsenByBlock_ok`).
-/
namespace Multilevel.Level

variable {α : Type}

/-! ### Fixed blocks -/

def fixedBlocks (l : Level α) (nodes : List NodeId) : List BlockId := nodes.filterMap l.fixed.get?

def Agree (l : Level α) (nodes : List NodeId) : Prop :=
  ∀ a ∈ l.fixedBlocks nodes, ∀ b ∈ l.fixedBlocks nodes, a = b

theorem fixedBlock_ok {l : Level α} {cluster : Nat} {nodes : List NodeId} {block : Option BlockId} :
    l.fixedBlock cluster nodes = .ok block ↔
      l.Agree nodes ∧ block = (l.fixedBlocks nodes).head? := by
  have agree : l.Agree nodes ↔ (Ordered.ofList (l.fixedBlocks nodes)).length ≤ 1 :=
    Ordered.length_ofList_le_one.symm
  have members (b : BlockId) : b ∈ Ordered.ofList (l.fixedBlocks nodes) ↔ b ∈ l.fixedBlocks nodes :=
    Ordered.mem_ofList
  rw [agree, fixedBlock, show nodes.filterMap l.fixed.get? = l.fixedBlocks nodes from rfl]
  match h : Ordered.ofList (l.fixedBlocks nodes) with
  | [] =>
    have none : l.fixedBlocks nodes = [] :=
      List.eq_nil_iff_forall_not_mem.mpr fun b member => by simpa [h] using (members b).mpr member
    simp [none, eq_comm]
  | [b] =>
    cases blocks : l.fixedBlocks nodes with
    | nil =>
      have held := (members b).mp (by simp [h])
      rw [blocks] at held
      cases held
    | cons first rest =>
      have same : first = b := by simpa [h] using (members first).mpr (by simp [blocks])
      simp [same, eq_comm]
  | _ :: _ :: _ => simp

/-- The fixed nodes that a child has from its clusters, numbered from some number on. -/
def inherited (parent : Level α) (start : Nat) (clusters : Clustering) : Fixed :=
  (clusters.zipIdx start).filterMap fun e => (parent.fixedBlocks e.1).head?.map (e.2, ·)

theorem inherited_cons (parent : Level α) (start : Nat) (members : List NodeId)
    (clusters : Clustering) : parent.inherited start (members :: clusters) =
      ((parent.fixedBlocks members).head?.map (start, ·)).toList ++
        parent.inherited (start + 1) clusters := by
  rw [inherited, List.zipIdx_cons, List.filterMap_cons]
  cases (parent.fixedBlocks members).head? <;> rfl

theorem bounds_of_mem_inherited {parent : Level α} {start : Nat} {clusters : Clustering}
    {entry : NodeId × BlockId} (member : entry ∈ parent.inherited start clusters) :
    start ≤ entry.1 ∧ entry.1 < start + clusters.length := by
  obtain ⟨⟨members, c⟩, present, held⟩ := List.mem_filterMap.mp member
  obtain ⟨b, -, rfl⟩ := Option.map_eq_some_iff.mp held
  exact ⟨List.le_snd_of_mem_zipIdx present, List.snd_lt_add_of_mem_zipIdx present⟩

/-! ### Clusters -/

structure Weighs (weigh : List NodeId → Except Fault (List α)) (dim : Nat)
    (Valid : List NodeId → Prop) (rule : List NodeId → List α) (members : List NodeId) : Prop where
  result : ∀ w, weigh members = .ok w ↔ Valid members ∧ w = rule members
  length : (rule members).length = dim

section
variable {parent : Level α} {weigh : List NodeId → Except Fault (List α)} {factors : Factors α}
  {weights : List (List α)} {origins : List Origin} {fixed : Fixed} {child : Tier α}
  {Valid : List NodeId → Prop} {rule : List NodeId → List α}

theorem addCluster_ok {members : List NodeId}
    (weighs : Weighs weigh factors.node.length Valid rule members) :
    parent.addCluster weigh (.ofOrigins (.ofParts factors weights []) origins fixed) members =
        .ok child ↔
      (Valid members ∧ parent.Agree members) ∧
        child = .ofOrigins (.ofParts factors (weights ++ [rule members]) [])
          (origins ++ [.cluster members]) (fixed ++ parent.inherited weights.length [members]) := by
  have noded (next : Tier α) :
      (Tier.ofOrigins (.ofParts factors weights []) origins fixed).addNode (rule members)
          (.cluster members) = .ok next ↔
        next = .ofOrigins (.ofParts factors (weights ++ [rule members]) [])
          (origins ++ [.cluster members]) fixed := by
    have grown (h : Hypergraph α) : (Hypergraph.ofParts factors weights []).addNode (rule members) =
        .ok h ↔ _ := Hypergraph.addNode_ofParts nofun
    simp only [Tier.addNode_ofOrigins, grown, weighs.length, true_and, exists_eq_left]
  unfold addCluster
  simp only [bind_ok, weighs.result, fixedBlock_ok]
  constructor
  · rintro ⟨_, ⟨valid, rfl⟩, _, ⟨agree, rfl⟩, next, added, same⟩
    obtain rfl := (noded next).mp added
    refine ⟨⟨valid, agree⟩, ?_⟩
    cases head : (parent.fixedBlocks members).head? <;> simp only [head, pure_ok] at same <;>
      simpa [inherited, head, Tier.ofOrigins] using same.symm
  · rintro ⟨⟨valid, agree⟩, rfl⟩
    refine ⟨_, ⟨valid, rfl⟩, _, ⟨agree, rfl⟩, _, (noded _).mpr rfl, ?_⟩
    cases head : (parent.fixedBlocks members).head? <;>
      simp [inherited, head, pure_ok, Tier.ofOrigins]

theorem foldlM_addCluster_ok {clusters : Clustering}
    (weighs : ∀ members ∈ clusters, Weighs weigh factors.node.length Valid rule members) :
    clusters.foldlM (parent.addCluster weigh)
        (.ofOrigins (.ofParts factors weights []) origins fixed) = .ok child ↔
      (∀ members ∈ clusters, Valid members ∧ parent.Agree members) ∧
        child = .ofOrigins (.ofParts factors (weights ++ clusters.map rule) [])
          (origins ++ clusters.map .cluster) (fixed ++ parent.inherited weights.length clusters) := by
  induction clusters generalizing weights origins fixed with
  | nil =>
    rw [List.foldlM_nil, pure_ok, eq_comm]
    simp [inherited]
  | cons members clusters ih =>
    obtain ⟨first, others⟩ := List.forall_mem_cons.mp weighs
    have split : parent.inherited weights.length [members] ++
        parent.inherited (weights ++ [rule members]).length clusters =
          parent.inherited weights.length (members :: clusters) := by
      rw [inherited_cons, inherited_cons, List.length_append, List.append_assoc]
      rfl
    rw [List.foldlM_cons, bind_ok, List.forall_mem_cons, List.map_cons, List.map_cons,
      List.append_cons, List.append_cons origins, ← split, ← List.append_assoc]
    constructor
    · rintro ⟨next, step, rest⟩
      obtain ⟨accepted, rfl⟩ := (addCluster_ok first).mp step
      obtain ⟨later, same⟩ := (ih others).mp rest
      exact ⟨⟨accepted, later⟩, same⟩
    · rintro ⟨⟨accepted, later⟩, same⟩
      exact ⟨_, (addCluster_ok first).mpr ⟨accepted, rfl⟩, (ih others).mpr ⟨later, same⟩⟩

theorem foldlM_addCluster_start_ok {clusters : Clustering}
    (weighs : ∀ members ∈ clusters, Weighs weigh factors.node.length Valid rule members) :
    clusters.foldlM (parent.addCluster weigh) { graph := .ofParts factors [] [] } = .ok child ↔
      (∀ members ∈ clusters, Valid members ∧ parent.Agree members) ∧
        child = .ofOrigins (.ofParts factors (clusters.map rule) []) (clusters.map .cluster)
          (parent.inherited 0 clusters) := by
  have grown : clusters.foldlM (parent.addCluster weigh)
      (.ofOrigins (.ofParts factors [] []) [] []) = .ok child ↔ _ := foldlM_addCluster_ok weighs
  simp only [List.nil_append, List.length_nil] at grown
  exact grown

end

/-! ### Children -/

/-- What clusters have to meet to be accepted: they can be placed, and no cluster has members that
are fixed to different blocks. -/
structure Accepts (parent : Level α) (clusters : Clustering) : Prop
    extends parent.Places clusters where
  agree : ∀ members ∈ clusters, parent.Agree members

/-- The parent nodes that a child keeps as virtual nodes. -/
def outskirts (parent : Level α) (clusters : Clustering) (options : CoarsenOptions) : List NodeId :=
  if options.keepBoundary then boundary clusters parent.graph.edges else []

def childOrigins (parent : Level α) (clusters : Clustering) (options : CoarsenOptions) :
    List Origin :=
  clusters.origins (parent.outskirts clusters options)

section
variable {parent : Level α} {clusters : Clustering} {options : CoarsenOptions}

theorem flatMap_parents_childOrigins :
    (parent.childOrigins clusters options).flatMap Origin.parents =
      clusters.flatten ++ parent.outskirts clusters options :=
  flatMap_parents_origins _ _

/-- A sweep over all edges meets the boundary, if it is to be kept. -/
theorem foldl_metBy : parent.graph.edges.foldl (metBy options clusters) [] =
    parent.outskirts clusters options := by
  unfold outskirts
  split
  · rename_i keep
    exact congrArg (List.foldl · [] parent.graph.edges) (funext₂ fun _ _ => if_pos keep)
  · rename_i drop
    obtain ⟨more, same, none⟩ :=
      foldl_metBy_eq_append options clusters parent.graph.edges []
    rw [same, none (Bool.eq_false_iff.mpr drop)]
    rfl

theorem outskirts_external {n : NodeId} (member : n ∈ parent.outskirts clusters options) :
    n ∉ clusters.flatten := by
  unfold outskirts at member
  split at member
  · exact (mem_boundary.mp member).1
  · cases member

theorem nodup_outskirts : (parent.outskirts clusters options).Nodup := by
  unfold outskirts
  split
  · exact nodup_boundary _ _
  · exact List.nodup_nil

theorem known_outskirts (wellFormed : parent.graph.WellFormed) {n : NodeId}
    (member : n ∈ parent.outskirts clusters options) : n < parent.graph.nodeCount := by
  unfold outskirts at member
  split at member
  · obtain ⟨-, e, present, -, spans⟩ := mem_boundary.mp member
    exact (wellFormed.edges e present).known n spans
  · cases member

theorem Places.once_childOrigins (places : parent.Places clusters) :
    ((parent.childOrigins clusters options).flatMap Origin.parents).Nodup := by
  rw [flatMap_parents_childOrigins, List.nodup_append]
  refine ⟨places.once, nodup_outskirts, fun n inside m outside same => ?_⟩
  exact outskirts_external outside (same ▸ inside)

theorem Places.known_childOrigins (places : parent.Places clusters)
    (wellFormed : parent.graph.WellFormed) :
    ∀ n ∈ (parent.childOrigins clusters options).flatMap Origin.parents,
      n < parent.graph.nodeCount := by
  rw [flatMap_parents_childOrigins, List.forall_mem_append]
  exact ⟨places.known, fun n => known_outskirts wellFormed⟩

theorem Places.placeable (places : parent.Places clusters) :
    Placeable parent.graph.nodeCount (clusters.map .cluster) := by
  constructor <;> rw [flatMap_parents_cluster]
  · exact places.once
  · exact places.known

variable [Zero α] [Add α]

def together (parent : Level α) (members : List NodeId) : List α :=
  Weight.sumOf parent.graph.nodeDim (members.map parent.graph.weightsAt)

theorem weighs_together (wellFormed : parent.graph.WellFormed) (places : parent.Places clusters) :
    ∀ members ∈ clusters,
      Weighs parent.clusterWeight parent.graph.nodeDim (fun _ => True) parent.together members := by
  intro members present
  have known := places.known_of_mem present
  have lengths : ∀ w ∈ members.map parent.graph.weightsAt, w.length = parent.graph.nodeDim :=
    List.forall_mem_map.mpr fun n member => Hypergraph.length_weightsAt wellFormed (known n member)
  have result : parent.clusterWeight members = .ok (parent.together members) := by
    unfold clusterWeight
    rw [mapM_eq_map fun n member => Hypergraph.nodeWeights_eq (known n member)]
    exact Weight.sum_ok lengths
  refine ⟨fun w => ?_, Weight.length_sumOf lengths⟩
  rw [result]
  simp [eq_comm]

/-- The node weights of a child: those of the clusters, and none for the virtual nodes. -/
def childWeights (parent : Level α) (clusters : Clustering) (options : CoarsenOptions) :
    List (List α) :=
  clusters.map parent.together ++
    (parent.outskirts clusters options).map fun _ => Weight.zeros parent.graph.nodeDim

theorem length_childWeights :
    (parent.childWeights clusters options).length = (parent.childOrigins clusters options).length := by
  rw [childOrigins, length_origins]
  simp [childWeights]

def childGraph (parent : Level α) (clusters : Clustering) (options : CoarsenOptions) :
    Hypergraph α :=
  .ofParts parent.graph.factors (parent.childWeights clusters options)
    (parent.graph.edges.filterMap
      (induced clusters (parent.childOrigins clusters options)))

def coarsened (parent : Level α) (clusters : Clustering) (options : CoarsenOptions) : Level α :=
  .child (.ofOrigins (parent.childGraph clusters options) (parent.childOrigins clusters options)
    (parent.inherited 0 clusters)) parent

theorem parent?_coarsened : (parent.coarsened clusters options).parent? = some parent := rfl

theorem factors_coarsened :
    (parent.coarsened clusters options).graph.factors = parent.graph.factors := rfl

theorem edges_coarsened : (parent.coarsened clusters options).graph.edges =
    parent.graph.edges.filterMap (induced clusters (parent.childOrigins clusters options)) := rfl

theorem origins_coarsened :
    (parent.coarsened clusters options).origins = parent.childOrigins clusters options :=
  Tier.origins_ofOrigins _ _ _

theorem accepts_of_coarsen {child : Level α} (wellFormed : parent.graph.WellFormed)
    (made : parent.coarsen clusters options = .ok child) : parent.Accepts clusters := by
  unfold coarsen at made
  obtain ⟨inside, fits, made⟩ := bind_ok.mp made
  obtain ⟨places, rfl⟩ := placement_ok.mp fits
  obtain ⟨bare, start, made⟩ := bind_ok.mp made
  obtain ⟨-, -, rfl⟩ := Hypergraph.empty_ok.mp start
  obtain ⟨tier, built, -⟩ := bind_ok.mp made
  obtain ⟨accepted, -⟩ := (foldlM_addCluster_start_ok (weighs_together wellFormed places)).mp built
  exact ⟨places, fun members present => (accepted members present).2⟩

theorem Accepts.coarsen_eq (accepts : parent.Accepts clusters)
    (wellFormed : parent.graph.WellFormed) :
    parent.coarsen clusters options = .ok (parent.coarsened clusters options) := by
  have places := accepts.toPlaces
  have inside := placement_ok.mpr ⟨places, rfl⟩
  have start := Hypergraph.empty_ok.mpr ⟨wellFormed.nodeFactor, wellFormed.edgeFactor, rfl⟩
  have clusterNodes := (foldlM_addCluster_start_ok (weighs_together wellFormed places)).mpr
    ⟨fun members present => ⟨trivial, accepts.agree members present⟩, rfl⟩
  have real : (Hypergraph.ofParts parent.graph.factors (clusters.map parent.together) []).nodeCount =
      clusters.length := (Hypergraph.nodeCount_ofParts _ _ _).trans (List.length_map _)
  have swept := sweep_eq (parent.inherited 0 clusters) options places.placeable
    (List.length_map parent.together) wellFormed.edges
  rw [foldl_metBy, ← real] at swept
  exact bind_ok.mpr ⟨_, inside, bind_ok.mpr ⟨_, start, bind_ok.mpr ⟨_, clusterNodes,
    bind_ok.mpr ⟨_, swept, rfl⟩⟩⟩⟩

theorem coarsen_ok {child : Level α} (wellFormed : parent.graph.WellFormed) :
    parent.coarsen clusters options = .ok child ↔
      parent.Accepts clusters ∧ child = parent.coarsened clusters options :=
  ok_iff (accepts_of_coarsen wellFormed) fun accepts => accepts.coarsen_eq wellFormed

end
end Multilevel.Level
