import Multilevel.Proofs.CommandLine.Layout
import Multilevel.Proofs.CommandLine.Reports
import Multilevel.Proofs.Decimal.Addition
import Multilevel.Proofs.Folder
import Multilevel.Proofs.Hmetis.Partition
import Multilevel.Proofs.Hmetis.RoundTrip
import Multilevel.Proofs.Level.Covering
import Multilevel.Proofs.Provenance

/-!
# Coarsening and projecting files

Clusters that hold every node of a graph make a child, which is written to a file. A partition of
the child is carried to the graph, and written as well. Read again, the child with its partition and
the graph with the other one are evaluated alike: nothing is lost in the files, the cut is the same
whatever addition does, and so are the block weights where it is exact.
-/
namespace Multilevel.CommandLine

/-! ### Cluster files -/

theorem nil_notMem_parseClusters {text : String} {groups : Clustering}
    (parsed : parseClusters text = .ok groups) : [] ∉ groups := by
  intro empty
  obtain ⟨l, present, read⟩ := exists_of_mapM parsed empty
  rw [contentLines_eq] at present
  obtain ⟨-, line, -, trimmed, content⟩ := Source.of_mem_numbered present
  have said : Text.trim line ≠ [] := fun none => by rw [none] at content; cases content
  obtain ⟨c, member, solid⟩ := Text.exists_solid_of_trim said
  have words := Text.words_ne_nil member solid
  have none : l.words = [] := List.forall₂_nil_right_iff.mp (mapM_ok.mp read)
  exact words (trimmed ▸ none)

/-! ### The files of a run -/

/-- What is read, and where the child and the partition of its parent go. -/
structure Paths where
  input : Input
  clusters : String
  partition : String
  child : String
  result : String

/-- A cluster file in whose clusters each node stands once, and a partition file with a block for
each cluster. -/
structure Prepared (f : Folder) (paths : Paths) (count : Nat) (groups : Clustering)
    (p : Partition) : Prop where
  clusters : ∃ text, f.readText paths.clusters = .ok text ∧ parseClusters text = .ok groups
  once : groups.flatten.Perm (List.range count)
  partition : f.readPartition paths.partition = .ok p
  length : p.length = groups.length
  assigned : none ∉ p

/-- Files can be written where the results go, and there is none that is still to be read. -/
structure Paths.Apart (paths : Paths) (f : Folder) : Prop where
  takesChild : (f.write paths.child "").isOk = true
  takesResult : (f.write paths.result "").isOk = true
  child : ∀ path ∈ paths.input.settings.toList ++
    [paths.input.graph, paths.clusters, paths.partition, paths.result],
      Place.key path ≠ Place.key paths.child
  -- the clusters are not read any more once the partition of the parent is there
  result : ∀ path ∈ paths.input.settings.toList ++ [paths.input.graph, paths.partition],
    Place.key path ≠ Place.key paths.result

theorem Prepared.nonempty {f : Folder} {paths : Paths} {count : Nat} {groups : Clustering}
    {p : Partition} (prepared : Prepared f paths count groups p) : [] ∉ groups := by
  obtain ⟨_, -, parsed⟩ := prepared.clusters
  exact nil_notMem_parseClusters parsed

theorem takes_of_write {f : Folder} {path : String} (writes : (f.write path "").isOk = true) :
    f.Takes path := by
  obtain ⟨g, made⟩ := ok_of_isOk writes
  exact (Folder.write_ok.mp made).1

theorem wellFormed_of_readGraph {α : Type} [One α] [Numeral α] {f : Folder} {path : String}
    {factors : Factors α} {g : Hypergraph α} (held : f.readGraph path factors = .ok g) :
    g.WellFormed := by
  obtain ⟨_, -, parsed⟩ := Folder.readGraph_ok.mp held
  exact (Hmetis.reachable_of_readGraph parsed).wellFormed

theorem loadFactors_stored {f : Folder} {settings : Option String} {factors : Factors Float}
    {other : String} (apart : ∀ path ∈ settings.toList, Place.key path ≠ Place.key other)
    (loaded : loadFactors f settings = .ok factors) (text : String) :
    loadFactors (f.stored other text) settings = .ok factors := by
  cases settings with
  | none => exact loaded
  | some path =>
    obtain ⟨held, read, parsed⟩ := bind_ok.mp loaded
    have kept := Folder.readText_stored_of_ne (apart path List.mem_cons_self) (mapError_ok.mp read) text
    exact bind_ok.mpr ⟨held, mapError_ok.mpr kept, parsed⟩

/-! ### Carried partitions -/

section
variable {α : Type} {g : Hypergraph α} {groups : Clustering}

def carried (g : Hypergraph α) (groups : Clustering) (p : Partition) : Partition :=
  Level.expanded (groups.map .cluster) g.nodeCount p

theorem length_carried (g : Hypergraph α) (groups : Clustering) (p : Partition) :
    (carried g groups p).length = g.nodeCount :=
  Level.length_expanded _ _ _

section
variable (once : groups.flatten.Perm (List.range g.nodeCount)) {p : Partition}
  (length : p.length = groups.length)
include once length

theorem none_notMem_carried (assigned : none ∉ p) : none ∉ carried g groups p :=
  (Level.accepts_of_perm once).none_notMem_expanded length (Level.covers_of_perm once) assigned

theorem blockCount_carried (nonempty : [] ∉ groups) :
    (carried g groups p).blockCount = p.blockCount :=
  (Level.accepts_of_perm once).blockCount_expanded length nonempty

end

/-! ### The child -/

variable [Zero α] [Add α]

def childOf (g : Hypergraph α) (groups : Clustering) : Level α := (Level.ofGraph g).coarsened groups {}

theorem expand_childOf {p : Partition} (length : p.length = groups.length) :
    (childOf g groups).expand p = .ok (carried g groups p) := by
  have fits : p.length = (childOf g groups).graph.nodeCount := length.trans Level.nodeCount_coarsened.symm
  refine (Level.expand_coarsened fits).trans ?_
  rw [Level.childOrigins_default]
  rfl

theorem nodeCount_childOf : (childOf g groups).graph.nodeCount = groups.length :=
  Level.nodeCount_coarsened

theorem quotientOf_childOf (wellFormed : g.WellFormed)
    (once : groups.flatten.Perm (List.range g.nodeCount)) :
    (childOf g groups).QuotientOf (Level.ofGraph g) := by
  have graph : (Level.ofGraph g).graph.WellFormed := wellFormed
  exact Level.quotientOf_coarsen graph (Level.coarsen_of_perm once wellFormed {})

theorem wellFormed_childOf (wellFormed : g.WellFormed)
    (once : groups.flatten.Perm (List.range g.nodeCount)) : (childOf g groups).WellFormed :=
  (Level.accepts_of_perm once).wellFormed wellFormed

theorem cutEdges_carried (wellFormed : g.WellFormed)
    (once : groups.flatten.Perm (List.range g.nodeCount)) {p : Partition}
    (length : p.length = groups.length) :
    (childOf g groups).graph.cutEdges p = g.cutEdges (carried g groups p) := by
  have cut := (quotientOf_childOf wellFormed once).cutEdges_expanded
    (wellFormed_childOf wellFormed once) wellFormed (length.trans nodeCount_childOf.symm)
  rwa [childOf, Level.origins_coarsened_default] at cut

theorem loadChild_ok {f : Folder} {paths : Paths} {p : Partition} (wellFormed : g.WellFormed)
    (prepared : Prepared f paths g.nodeCount groups p) (keep : Bool) :
    loadChild f g ⟨paths.clusters, keep⟩ = .ok (childOf g groups) := by
  obtain ⟨text, held, parsed⟩ := prepared.clusters
  exact bind_ok.mpr ⟨text, mapError_ok.mpr held, bind_ok.mpr ⟨groups, parsed,
    mapError_ok.mpr (Level.coarsen_of_perm prepared.once wellFormed ⟨keep⟩)⟩⟩

/-! ### Written children -/

variable [Numeral α]

/-- Sums over clusters and weights of hyperedges that can be written and read again. -/
structure Legible (g : Hypergraph α) (groups : Clustering) : Prop where
  sums : ∀ members ∈ groups, ∀ x ∈ (Level.ofGraph g).together members, Hmetis.Faithful x
  edges : ∀ e ∈ g.edges, ∀ x ∈ e.weights, Hmetis.Faithful x

theorem readGraph_childOf [One α] {source : Source} {factors : Factors α}
    (held : Hmetis.readGraph source factors = .ok g) (nonempty : [] ∉ groups)
    (once : groups.flatten.Perm (List.range g.nodeCount)) (legible : Legible g groups) :
    Hmetis.readGraph (.text (Hmetis.writeGraph (childOf g groups).graph)) factors =
      .ok (childOf g groups).graph := by
  have wellFormed := (Hmetis.reachable_of_readGraph held).wellFormed
  obtain ⟨_, _, h, -, headed, same, nodes, edges⟩ := Hmetis.counts_of_readGraph held
  obtain ⟨nodeBound, edgeBound⟩ := Hmetis.lt_of_header headed
  obtain rfl : (childOf g groups).graph.factors = factors := same
  have quotient := (quotientOf_childOf wellFormed once).edges
  refine Hmetis.readGraph_writeGraph_faithful (wellFormed_childOf wellFormed once).graph.reachable
    ?_ ?_ ?_ ?_
  · rw [nodeCount_childOf]
    exact Nat.lt_of_le_of_lt (Level.length_le_of_perm once nonempty) (nodes ▸ nodeBound)
  · rw [Hypergraph.edgeCount, quotient]
    refine Nat.lt_of_le_of_lt (List.length_filterMap_le _ g.edges) ?_
    rwa [← Hypergraph.edgeCount, edges]
  · intro n present
    have weighs : n.weights ∈ groups.map (Level.ofGraph g).together := by
      rw [← Level.weights_coarsened]
      exact List.mem_map_of_mem present
    obtain ⟨members, listed, sum⟩ := List.mem_map.mp weighs
    exact sum ▸ legible.sums members listed
  · intro d present
    rw [quotient] at present
    obtain ⟨e, original, kept⟩ := List.mem_filterMap.mp present
    obtain ⟨-, rfl⟩ := Edge.along_eq_some.mp kept
    exact legible.edges e original

end

/-! ### Commands on files -/

section
variable {α : Type} [Numeral α] [Zero α] [One α] [Add α] {f : Folder} {paths : Paths}
  {factors : Factors α} {g : Hypergraph α} {groups : Clustering} {p : Partition}

def withChild (f : Folder) (paths : Paths) (g : Hypergraph α) (groups : Clustering) : Folder :=
  f.stored paths.child (Hmetis.writeGraph (childOf g groups).graph)

def withResult (f : Folder) (paths : Paths) (g : Hypergraph α) (groups : Clustering)
    (p : Partition) : Folder :=
  (withChild f paths g groups).stored paths.result (Hmetis.writePartition (carried g groups p))

theorem coarsenFile_ok (held : f.readGraph paths.input.graph factors = .ok g)
    (prepared : Prepared f paths g.nodeCount groups p) (apart : paths.Apart f) (keep : Bool) :
    coarsenFile f factors paths.input.graph ⟨paths.clusters, keep⟩ paths.child =
      .ok (childOf g groups, withChild f paths g groups) := by
  have wellFormed := wellFormed_of_readGraph held
  have takes := takes_of_write apart.takesChild
  exact bind_ok.mpr ⟨g, mapError_ok.mpr held,
    bind_ok.mpr ⟨_, loadChild_ok wellFormed prepared keep,
    bind_ok.mpr ⟨_, mapError_ok.mpr (takes.saveGraph _), rfl⟩⟩⟩

theorem readGraph_withChild (held : f.readGraph paths.input.graph factors = .ok g)
    (apart : paths.Apart f) :
    (withChild f paths g groups).readGraph paths.input.graph factors = .ok g :=
  Folder.readGraph_stored_of_ne (apart.child _ (by simp)) held _

omit [One α] in
theorem prepared_withChild (prepared : Prepared f paths g.nodeCount groups p)
    (apart : paths.Apart f) :
    Prepared (withChild f paths g groups) paths g.nodeCount groups p := by
  obtain ⟨text, read, parsed⟩ := prepared.clusters
  have clusters : (withChild f paths g groups).readText paths.clusters = .ok text :=
    Folder.readText_stored_of_ne (apart.child _ (by simp)) read _
  have partition : (withChild f paths g groups).readPartition paths.partition = .ok p :=
    Folder.readPartition_stored_of_ne (apart.child _ (by simp)) prepared.partition _
  exact { prepared with clusters := ⟨text, clusters, parsed⟩, partition }

theorem projectFile_ok (held : f.readGraph paths.input.graph factors = .ok g)
    (prepared : Prepared f paths g.nodeCount groups p) (apart : paths.Apart f) (keep : Bool) :
    projectFile (withChild f paths g groups) factors paths.input.graph ⟨paths.clusters, keep⟩
      paths.partition paths.result = .ok (withResult f paths g groups p) := by
  have wellFormed := wellFormed_of_readGraph held
  have kept := prepared_withChild prepared apart
  have takes : (withChild f paths g groups).Takes paths.result :=
    Folder.takes_stored.mpr (takes_of_write apart.takesResult)
  exact bind_ok.mpr ⟨g, mapError_ok.mpr (readGraph_withChild held apart),
    bind_ok.mpr ⟨_, loadChild_ok wellFormed kept keep,
    bind_ok.mpr ⟨p, mapError_ok.mpr kept.partition,
    bind_ok.mpr ⟨_, mapError_ok.mpr (expand_childOf prepared.length),
    mapError_ok.mpr (takes.savePartition _)⟩⟩⟩⟩

/-! ### Reading the results -/

theorem readGraph_child (held : f.readGraph paths.input.graph factors = .ok g)
    (prepared : Prepared f paths g.nodeCount groups p) (apart : paths.Apart f)
    (legible : Legible g groups) :
    (withResult f paths g groups p).readGraph paths.child factors =
      .ok (childOf g groups).graph := by
  obtain ⟨_, -, read⟩ := Folder.readGraph_ok.mp held
  have different : Place.key paths.child ≠ Place.key paths.result :=
    (apart.child paths.result (by simp)).symm
  have stored := Folder.read_stored_self (takes_of_write apart.takesChild)
    (Hmetis.writeGraph (childOf g groups).graph)
  exact Folder.readGraph_ok.mpr ⟨_, Folder.read_stored_of_ne different stored _,
    readGraph_childOf read prepared.nonempty prepared.once legible⟩

omit [One α] in
theorem readPartition_result (prepared : Prepared f paths g.nodeCount groups p)
    (apart : paths.Apart f) :
    (withResult f paths g groups p).readPartition paths.result = .ok (carried g groups p) := by
  have takes : (withChild f paths g groups).Takes paths.result :=
    Folder.takes_stored.mpr (takes_of_write apart.takesResult)
  obtain ⟨_, -, read⟩ := Folder.readPartition_ok.mp prepared.partition
  -- no block is larger than those of the child, which come from a file
  have small : ∀ b, some b ∈ carried g groups p → b < 0x8000000000000000 := by
    have blocks := blockCount_carried prepared.once prepared.length prepared.nonempty
    refine Partition.blockCount_le_iff.mp (blocks ▸ ?_)
    exact Partition.blockCount_le_iff.mpr fun _ => Hmetis.lt_of_readPartition read
  exact Folder.readPartition_ok.mpr ⟨_, Folder.read_stored_self takes _,
    Hmetis.readPartition_writePartition small⟩

/-! ### Evaluating them -/

variable [Neg α] [Sub α] [Mul α] [Div α] [NatCast α] [LE α] [DecidableLE α] [Gauge α]

theorem evaluateFile_ok {graph partition : String} (held : f.readGraph graph factors = .ok g)
    (read : f.readPartition partition = .ok p) (length : p.length = g.nodeCount)
    (assigned : none ∉ p) : evaluateFile f factors graph partition = .ok (measured g p) := by
  have report := metrics_ok (wellFormed_of_readGraph held) length assigned
  exact bind_ok.mpr ⟨g, mapError_ok.mpr held, bind_ok.mpr ⟨p, mapError_ok.mpr read,
    mapError_ok.mpr report⟩⟩

variable (held : f.readGraph paths.input.graph factors = .ok g)
  (prepared : Prepared f paths g.nodeCount groups p) (apart : paths.Apart f)
include held prepared apart

theorem evaluateFile_child (legible : Legible g groups) :
    evaluateFile (withResult f paths g groups p) factors paths.child paths.partition =
      .ok (measured (childOf g groups).graph p) := by
  have partition : (withResult f paths g groups p).readPartition paths.partition = .ok p :=
    Folder.readPartition_stored_of_ne (apart.result _ (by simp))
      (prepared_withChild prepared apart).partition _
  exact evaluateFile_ok (readGraph_child held prepared apart legible) partition
    (prepared.length.trans nodeCount_childOf.symm) prepared.assigned

theorem evaluateFile_parent :
    evaluateFile (withResult f paths g groups p) factors paths.input.graph paths.result =
      .ok (measured g (carried g groups p)) := by
  have graph : (withResult f paths g groups p).readGraph paths.input.graph factors = .ok g :=
    Folder.readGraph_stored_of_ne (apart.result _ (by simp)) (readGraph_withChild held apart) _
  exact evaluateFile_ok graph (readPartition_result prepared apart) (length_carried g groups p)
    (none_notMem_carried prepared.once prepared.length prepared.assigned)

omit [Numeral α] [One α] held prepared apart in
theorem sameCut_carried (wellFormed : g.WellFormed)
    (once : groups.flatten.Perm (List.range g.nodeCount)) (nonempty : [] ∉ groups)
    (length : p.length = groups.length) :
    (measured (childOf g groups).graph p).SameCut (measured g (carried g groups p)) :=
  sameCut_measured rfl (cutEdges_carried wellFormed once length)
    (blockCount_carried once length nonempty).symm

omit [Numeral α] [One α] held prepared apart in
theorem measured_carried (exact : ExactAddition α) (wellFormed : g.WellFormed)
    (once : groups.flatten.Perm (List.range g.nodeCount)) (nonempty : [] ∉ groups)
    (length : p.length = groups.length) :
    measured (childOf g groups).graph p = measured g (carried g groups p) := by
  have weights (b : BlockId) :=
    (Level.accepts_of_perm once).toPlaces.weightIn_expanded wellFormed exact length b
  exact measured_congr rfl (cutEdges_carried wellFormed once length)
    (blockCount_carried once length nonempty).symm fun b => (weights b).symm

end

/-! ### Reports on files -/

theorem legible_of_finite {g : Hypergraph Float} {groups : Clustering}
    (once : groups.flatten.Perm (List.range g.nodeCount))
    (nodes : ∀ n ∈ g.nodes, ∀ x ∈ n.weights, x.isFinite = true)
    (edges : ∀ e ∈ g.edges, ∀ x ∈ e.weights, x.isFinite = true) : Legible g groups where
  sums members listed x added := by
    refine Hmetis.faithful_of_number (Decimal.isNaN_sumOf ?_ x added)
    refine List.forall_mem_map.mpr fun n member => ?_
    have known := List.mem_range.mp (once.mem_iff.mp (List.mem_flatten.mpr ⟨members, listed, member⟩))
    have weights : g.weightsAt n = g.nodes[n].weights := by
      rw [Hypergraph.weightsAt, List.getElem?_eq_getElem known]
      rfl
    exact weights ▸ nodes _ (List.getElem_mem known)
  edges e present x weighs :=
    Hmetis.faithful_of_number (Decimal.isNaN_of_isFinite (edges e present x weighs))

theorem nodeCount_of_readGraph {α β : Type} [One α] [Numeral α] [One β] [Numeral β] {f : Folder}
    {path : String} {factors : Factors α} {others : Factors β} {g : Hypergraph α} {h : Hypergraph β}
    (held : f.readGraph path factors = .ok g) (other : f.readGraph path others = .ok h) :
    h.nodeCount = g.nodeCount := by
  obtain ⟨source, read, parsed⟩ := Folder.readGraph_ok.mp held
  obtain ⟨_, again, otherwise⟩ := Folder.readGraph_ok.mp other
  obtain rfl := Except.ok.inj (read.symm.trans again)
  obtain ⟨l, rest, header, content, headed, -, count, -⟩ := Hmetis.counts_of_readGraph parsed
  obtain ⟨k, rest', header', content', headed', -, count', -⟩ := Hmetis.counts_of_readGraph otherwise
  obtain ⟨⟨⟩, -⟩ := List.cons.inj (content.symm.trans content')
  obtain rfl := Except.ok.inj (headed.symm.trans headed')
  exact count'.trans count.symm

/-- A graph of finite weights is coarsened, and a partition of the child is projected. The child with
its partition and the graph with the other one then have reports that say the same of the cut. The
whole reports are the same for scalars whose addition is exact, and which are written such that they
can be read. -/
theorem evaluate_project {f : Folder} {paths : Paths} {factors : Factors Float}
    {g : Hypergraph Float} {groups : Clustering} {p : Partition} (keep again : Bool)
    (settings : loadFactors f paths.input.settings = .ok factors)
    (held : f.readGraph paths.input.graph factors = .ok g)
    (nodes : ∀ n ∈ g.nodes, ∀ x ∈ n.weights, x.isFinite = true)
    (edges : ∀ e ∈ g.edges, ∀ x ∈ e.weights, x.isFinite = true)
    (prepared : Prepared f paths g.nodeCount groups p) (apart : paths.Apart f) :
    (∃ (f₁ f₂ : Folder) (m n : Metrics Float),
      Command.run f (.coarsen paths.input ⟨paths.clusters, keep⟩ paths.child none) =
        .ok { folder := f₁ } ∧
      Command.run f₁ (.project paths.input ⟨paths.clusters, again⟩ paths.partition paths.result) =
        .ok { folder := f₂ } ∧
      Command.run f₂ (.evaluate ⟨paths.child, paths.input.settings⟩ paths.partition none) =
        .ok { output := m.toJson.pretty ++ "\n", folder := f₂ } ∧
      Command.run f₂ (.evaluate paths.input paths.result none) =
        .ok { output := n.toJson.pretty ++ "\n", folder := f₂ } ∧
      m.SameCut n) ∧
    ∀ (β : Type) [Numeral β] [Zero β] [One β] [Neg β] [Add β] [Sub β] [Mul β] [Div β] [NatCast β]
      [LE β] [DecidableLE β] [Gauge β] (others : Factors β) (h : Hypergraph β), ExactAddition β →
      f.readGraph paths.input.graph others = .ok h → Legible h groups →
      ∃ (child : Level β) (f₁ f₂ : Folder) (m : Metrics β),
        coarsenFile f others paths.input.graph ⟨paths.clusters, keep⟩ paths.child =
          .ok (child, f₁) ∧
        projectFile f₁ others paths.input.graph ⟨paths.clusters, again⟩ paths.partition
          paths.result = .ok f₂ ∧
        evaluateFile f₂ others paths.child paths.partition = .ok m ∧
        evaluateFile f₂ others paths.input.graph paths.result = .ok m := by
  have nonempty := prepared.nonempty
  constructor
  · have wellFormed := wellFormed_of_readGraph held
    have legible := legible_of_finite prepared.once nodes edges
    have first : loadFactors (withChild f paths g groups) paths.input.settings = .ok factors :=
      loadFactors_stored (fun path given => apart.child path (List.mem_append_left _ given))
        settings _
    have second : loadFactors (withResult f paths g groups p) paths.input.settings = .ok factors :=
      loadFactors_stored (fun path given => apart.result path (List.mem_append_left _ given)) first _
    refine ⟨withChild f paths g groups, withResult f paths g groups p, _, _, ?_, ?_, ?_, ?_,
      sameCut_carried wellFormed prepared.once nonempty prepared.length⟩
    · exact bind_ok.mpr ⟨_, settings, bind_ok.mpr ⟨_, coarsenFile_ok held prepared apart keep, rfl⟩⟩
    · exact bind_ok.mpr ⟨_, first, bind_ok.mpr ⟨_, projectFile_ok held prepared apart again, rfl⟩⟩
    · exact bind_ok.mpr ⟨_, second,
        bind_ok.mpr ⟨_, evaluateFile_child held prepared apart legible, rfl⟩⟩
    · exact bind_ok.mpr ⟨_, second, bind_ok.mpr ⟨_, evaluateFile_parent held prepared apart, rfl⟩⟩
  · intro β _ _ _ _ _ _ _ _ _ _ _ _ others h exact exactly legible
    have wellFormed := wellFormed_of_readGraph exactly
    rw [← nodeCount_of_readGraph held exactly] at prepared
    have same := measured_carried exact wellFormed prepared.once nonempty prepared.length
    refine ⟨_, _, _, _, coarsenFile_ok exactly prepared apart keep,
      projectFile_ok exactly prepared apart again,
      evaluateFile_child exactly prepared apart legible, ?_⟩
    rw [same]
    exact evaluateFile_parent exactly prepared apart

instance numeralRat : Numeral Rat where
  text x := Nat.toDigits 10 x.num.toNat
  read? s := (Text.natural s).toOption.map Nat.cast

def triangle (α : Type) [NatCast α] : Hypergraph α :=
  let scalar : Nat → α := Nat.cast
  .ofParts ⟨[scalar 1], [scalar 2]⟩ [[scalar 4], [scalar 5], [scalar 6]]
    [⟨[scalar 1], [0, 1]⟩, ⟨[scalar 2], [1, 2]⟩, ⟨[scalar 3], [0, 2]⟩]

def desk : Folder where
  files := [("c", .text "2 0\n% alone\n1\n"),
    ("g", .text "3 3 11\n1 1 2\n2 2 3\n3 3 1\n4\n5\n6\n"),
    ("k", .text "node_weight_factor: [1]\nedge_weight_factor: [2]\n"), ("p", .text "1\n0\n")]

def deskPaths : Paths := ⟨⟨"g", some "k"⟩, "c", "p", "h", "q"⟩

theorem evaluate_project_desk :
    (∃ (f₁ f₂ : Folder) (m n : Metrics Float),
      Command.run desk (.coarsen deskPaths.input ⟨deskPaths.clusters, true⟩ deskPaths.child none) =
        .ok { folder := f₁ } ∧
      Command.run f₁ (.project deskPaths.input ⟨deskPaths.clusters, false⟩ deskPaths.partition
        deskPaths.result) = .ok { folder := f₂ } ∧
      Command.run f₂ (.evaluate ⟨deskPaths.child, deskPaths.input.settings⟩ deskPaths.partition
        none) = .ok { output := m.toJson.pretty ++ "\n", folder := f₂ } ∧
      Command.run f₂ (.evaluate deskPaths.input deskPaths.result none) =
        .ok { output := n.toJson.pretty ++ "\n", folder := f₂ } ∧
      m.SameCut n) ∧
    ∃ (child : Level Rat) (f₁ f₂ : Folder) (m : Metrics Rat),
      coarsenFile desk (triangle Rat).factors deskPaths.input.graph ⟨deskPaths.clusters, true⟩
        deskPaths.child = .ok (child, f₁) ∧
      projectFile f₁ (triangle Rat).factors deskPaths.input.graph ⟨deskPaths.clusters, false⟩
        deskPaths.partition deskPaths.result = .ok f₂ ∧
      evaluateFile f₂ (triangle Rat).factors deskPaths.child deskPaths.partition = .ok m ∧
      evaluateFile f₂ (triangle Rat).factors deskPaths.input.graph deskPaths.result = .ok m := by
  have settings : loadFactors desk deskPaths.input.settings = .ok (triangle Float).factors :=
    ok_of_toOption (by decide +kernel)
  have held : desk.readGraph deskPaths.input.graph (triangle Float).factors =
      .ok (triangle Float) := by decide +kernel
  have exactly : desk.readGraph deskPaths.input.graph (triangle Rat).factors =
      .ok (triangle Rat) := by decide +kernel
  have prepared : Prepared desk deskPaths (triangle Float).nodeCount [[2, 0], [1]]
      [some 1, some 0] := {
    clusters := ⟨"2 0\n% alone\n1\n", by decide +kernel, ok_of_toOption (by decide +kernel)⟩
    once := by decide +kernel
    partition := by decide +kernel
    length := rfl
    assigned := by decide }
  have apart : deskPaths.Apart desk := {
    takesChild := by decide +kernel
    takesResult := by decide +kernel
    child := by decide +kernel
    result := by decide +kernel }
  have legible : Legible (triangle Rat) [[2, 0], [1]] := ⟨by decide +kernel, by decide +kernel⟩
  have both := evaluate_project true false settings held (by decide +kernel) (by decide +kernel)
    prepared apart
  exact ⟨both.1, both.2 Rat _ _ exactAddition_rat exactly legible⟩

end Multilevel.CommandLine
