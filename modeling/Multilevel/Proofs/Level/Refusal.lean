import Mathlib.Data.List.Basic
import Multilevel.Proofs.Level.Fixed

namespace Multilevel.Level

variable {α : Type} {parent : Level α} {clusters : Clustering}

/-! ### What can be wrong -/

/-- A fault that names something wrong with clusters. -/
inductive Objects (parent : Level α) (clusters : Clustering) : Fault → Prop
  | outOfRange {n c : Nat} {members : List NodeId} (read : clusters[c]? = some members)
    (listed : n ∈ members) (unknown : parent.graph.nodeCount ≤ n) :
    Objects parent clusters (.parentOutOfRange c n parent.graph.nodeCount)
  | duplicate {n c d : Nat} (twice : [(n, c), (n, d)].Sublist (entries clusters)) :
    Objects parent clusters (.duplicateMember n c d)
  | virtual {n c : Nat} {members : List NodeId} (read : clusters[c]? = some members)
    (listed : n ∈ members) (virtual : parent.isVirtual n = .ok true) :
    Objects parent clusters (.virtualMember c n)
  | ambiguous {c : Nat} {members : List NodeId} (read : clusters[c]? = some members)
    (disagree : ¬ parent.Agree members) :
    Objects parent clusters
      (.ambiguousFixedBlock c (Ordered.ofList (members.filterMap parent.fixed.get?)))

theorem Objects.code {fault : Fault} (objects : parent.Objects clusters fault) :
    fault.report.family = .clustering ∧ fault.report.detail.code ∈
      ["parent-out-of-range", "duplicate-member", "virtual-member", "ambiguous-fixed-block"] := by
  cases objects with
  | outOfRange => exact ⟨rfl, .head _⟩
  | duplicate => exact ⟨rfl, .tail _ (.head _)⟩
  | virtual => exact ⟨rfl, .tail _ (.tail _ (.head _))⟩
  | ambiguous => exact ⟨rfl, .tail _ (.tail _ (.tail _ (.head _)))⟩

/-! ### Placing -/

theorem assign_error {c : Nat} {before : Placement} {n : NodeId} {fault : Fault} :
    parent.assign c before n = .error fault ↔
      (before[n]? = none ∧ fault = .parentOutOfRange c n parent.graph.nodeCount) ∨
      (∃ d, before[n]? = some (some d) ∧ fault = .duplicateMember n d c) ∨
      (before[n]? = some none ∧ parent.tier.virtual[n]? = some true ∧
        fault = .virtualMember c n) := by
  unfold assign
  cases before[n]? with
  | none => simp [eq_comm]
  | some held =>
    cases held with
    | some d => simp [eq_comm]
    | none =>
      cases parent.tier.virtual[n]? with
      | none => simp
      | some virtual => cases virtual <;> simp [eq_comm]

theorem objects_of_placement {fault : Fault} (failed : parent.placement clusters = .error fault) :
    parent.Objects clusters fault := by
  rw [placement_eq_foldlM] at failed
  obtain ⟨before, ⟨n, c⟩, after, p, split, rounds, last⟩ := foldlM_error failed
  obtain ⟨-, rfl⟩ := foldlM_assign_ok.mp rounds
  have entry : (n, c) ∈ entries clusters := by rw [split]; simp
  obtain ⟨members, read, listed⟩ := mem_entries.mp entry
  rcases assign_error.mp last with ⟨free, rfl⟩ | ⟨d, held, rfl⟩ | ⟨-, virtual, rfl⟩
  · refine .outOfRange read listed ?_
    rw [List.getElem?_eq_none_iff, length_overwrite, List.length_replicate] at free
    exact free
  · refine .duplicate ?_
    -- the placement starts without clusters, so one of the entries before has taken the place
    rcases mem_of_getElem?_overwrite held with written | start
    · obtain ⟨⟨m, e⟩, earlier, same⟩ := List.mem_map.mp written
      simp only [Prod.mk.injEq, Option.some.injEq] at same
      obtain ⟨rfl, rfl⟩ := same
      rw [split]
      exact (List.singleton_sublist.mpr earlier).append
        (List.singleton_sublist.mpr List.mem_cons_self)
    · cases (List.mem_replicate.mp (List.mem_of_getElem? start)).2
  · exact .virtual read listed (by rw [isVirtual, virtual])

/-! ### Adding the clusters -/

theorem fixedBlock_error {l : Level α} {c : Nat} {nodes : List NodeId} {fault : Fault} :
    l.fixedBlock c nodes = .error fault ↔ ¬ l.Agree nodes ∧
      fault = .ambiguousFixedBlock c (Ordered.ofList (nodes.filterMap l.fixed.get?)) := by
  have agree : l.Agree nodes ↔
      (Ordered.ofList (nodes.filterMap l.fixed.get?)).length ≤ 1 :=
    Ordered.length_ofList_le_one.symm
  rw [agree, fixedBlock]
  cases Ordered.ofList (nodes.filterMap l.fixed.get?) with
  | nil => simp
  | cons first rest =>
    cases rest with
    | nil => simp
    | cons => simp [eq_comm]

theorem objects_of_addCluster {weigh : List NodeId → Except Fault (List α)} {factors : Factors α}
    {rule : List NodeId → List α} {fault : Fault}
    (weighs : ∀ members ∈ clusters,
      Weighs weigh factors.node.length (fun _ => True) rule members)
    (failed : clusters.foldlM (parent.addCluster weigh) { graph := .ofParts factors [] [] } =
      .error fault) : parent.Objects clusters fault := by
  obtain ⟨before, members, after, child, rfl, rounds, last⟩ := foldlM_error failed
  obtain ⟨earlier, later⟩ := List.forall_mem_append.mp weighs
  have own := later members List.mem_cons_self
  obtain ⟨-, rfl⟩ := (foldlM_addCluster_start_ok earlier).mp rounds
  have disagree : ¬ parent.Agree members := by
    intro agree
    rw [(addCluster_ok own).mpr ⟨⟨trivial, agree⟩, rfl⟩] at last
    cases last
  have count : (Hypergraph.ofParts factors (before.map rule) []).nodeCount = before.length :=
    (Hypergraph.nodeCount_ofParts _ _ _).trans (List.length_map _)
  have refused : parent.fixedBlock before.length members = .error (.ambiguousFixedBlock
      before.length (Ordered.ofList (members.filterMap parent.fixed.get?))) :=
    fixedBlock_error.mpr ⟨disagree, rfl⟩
  rw [← count] at refused
  unfold addCluster at last
  rw [(own.result _).mpr ⟨trivial, rfl⟩] at last
  change (parent.fixedBlock _ members >>= _) = _ at last
  rw [Tier.ofOrigins, refused, count] at last
  obtain rfl := Except.error.inj last
  exact .ambiguous (by simp) disagree

/-! ### Acceptance -/

theorem agree_iff {l : Level α} {nodes : List NodeId} : l.Agree nodes ↔
    ∀ n ∈ nodes, ∀ m ∈ nodes, ∀ a b, l.fixed.get? n = some a → l.fixed.get? m = some b → a = b := by
  simp only [Agree, fixedBlocks, List.mem_filterMap]
  constructor
  · intro agree n left m right a b first second
    exact agree a ⟨n, left, first⟩ b ⟨m, right, second⟩
  · rintro agree a ⟨n, left, first⟩ b ⟨m, right, second⟩
    exact agree n left m right a b first second

theorem WellFormed.accepts_iff (wellFormed : parent.WellFormed) : parent.Accepts clusters ↔
    (∀ n ∈ clusters.flatten, n < parent.graph.nodeCount) ∧ clusters.flatten.Nodup ∧
    (∀ n ∈ clusters.flatten, parent.isVirtual n = .ok false) ∧
    ∀ members ∈ clusters, ∀ n ∈ members, ∀ m ∈ members, ∀ a b,
      parent.fixed.get? n = some a → parent.fixed.get? m = some b → a = b := by
  constructor
  · intro accepts
    refine ⟨accepts.known, accepts.once, fun n listed => ?_,
      fun members present => agree_iff.mp (accepts.agree members present)⟩
    obtain ⟨o, read⟩ := wellFormed.lt_nodeCount_iff.mp (accepts.known n listed)
    exact (isVirtual_ok wellFormed.inStep).mpr
      ⟨o, read, real_of_virtual read (accepts.real n listed)⟩
  · rintro ⟨known, once, real, agree⟩
    refine ⟨⟨known, once, fun n listed virtual => ?_⟩,
      fun members present => agree_iff.mpr (agree members present)⟩
    have read := real n listed
    rw [isVirtual, virtual] at read
    cases read

/-! ### Children -/

variable [Zero α] [Add α] {options : CoarsenOptions}

theorem objects_of_coarsen {fault : Fault} (wellFormed : parent.graph.WellFormed)
    (failed : parent.coarsen clusters options = .error fault) : parent.Objects clusters fault := by
  have whole := failed
  unfold coarsen at failed
  rcases bind_error.mp failed with unplaced | ⟨inside, placing, failed⟩
  · exact objects_of_placement unplaced
  have places := (placement_ok.mp placing).1
  have weighs := weighs_together wellFormed places
  have start := Hypergraph.empty_ok.mpr ⟨wellFormed.nodeFactor, wellFormed.edgeFactor, rfl⟩
  rcases bind_error.mp failed with empty | ⟨bare, begun, failed⟩
  · cases start.symm.trans empty
  obtain rfl := Except.ok.inj (start.symm.trans begun)
  rcases bind_error.mp failed with refused | ⟨child, built, -⟩
  · exact objects_of_addCluster weighs refused
  -- clusters that come this far are accepted, so that nothing after them fails
  obtain ⟨accepted, -⟩ := (foldlM_addCluster_start_ok weighs).mp built
  have accepts : parent.Accepts clusters :=
    ⟨places, fun members present => (accepted members present).2⟩
  rw [accepts.coarsen_eq wellFormed] at whole
  cases whole

/-- A child is made of the clusterings that list real nodes of the parent, none of them twice, and
no two of one cluster that are fixed to different blocks. The others are refused for one of these
reasons. -/
theorem Reachable.coarsen_accepts [One α] (reached : parent.Reachable) (clusters : Clustering)
    (options : CoarsenOptions) :
    ((∃ child, parent.coarsen clusters options = .ok child) ↔
      (∀ n ∈ clusters.flatten, n < parent.graph.nodeCount) ∧ clusters.flatten.Nodup ∧
      (∀ n ∈ clusters.flatten, parent.isVirtual n = .ok false) ∧
      ∀ members ∈ clusters, ∀ n ∈ members, ∀ m ∈ members, ∀ a b,
        parent.fixed.get? n = some a → parent.fixed.get? m = some b → a = b) ∧
    ∀ fault, parent.coarsen clusters options = .error fault → parent.Objects clusters fault ∧
      fault.report.family = .clustering ∧ fault.report.detail.code ∈
        ["parent-out-of-range", "duplicate-member", "virtual-member", "ambiguous-fixed-block"] := by
  have graph := reached.wellFormed.graph
  constructor
  · rw [← reached.wellFormed.accepts_iff]
    constructor
    · rintro ⟨child, made⟩
      exact accepts_of_coarsen graph made
    · intro accepts
      exact ⟨_, accepts.coarsen_eq graph⟩
  · intro fault failed
    have objects := objects_of_coarsen graph failed
    exact ⟨objects, objects.code⟩

/-- The first two nodes of the row are fixed to different blocks and have to stay apart. -/
theorem coarsen_accepts_pinned :
    (∃ child, pinned.coarsen [[0, 2], [1, 3]] ⟨true⟩ = .ok child) ∧
    (¬ ∃ child, pinned.coarsen [[2], [0, 1]] {} = .ok child) ∧
    ∃ fault, pinned.coarsen [[2], [0, 1]] {} = .error fault ∧
      fault.report.detail.code = "ambiguous-fixed-block" ∧ pinned.Objects [[2], [0, 1]] fault := by
  obtain ⟨accepted, -⟩ := Reachable.coarsen_accepts reachable_pinned [[0, 2], [1, 3]] ⟨true⟩
  obtain ⟨refused, objects⟩ := Reachable.coarsen_accepts reachable_pinned [[2], [0, 1]] {}
  have apart : ∀ members ∈ [[0, 2], [1, 3]], pinned.Agree members := by
    unfold Agree
    decide
  have failed : pinned.coarsen [[2], [0, 1]] {} = .error (.ambiguousFixedBlock 1 [3, 5]) := rfl
  refine ⟨accepted.mpr ⟨by decide, by decide, by decide, fun members present =>
    agree_iff.mp (apart members present)⟩, ?_, _, failed, rfl, (objects _ failed).1⟩
  rw [refused]
  rintro ⟨-, -, -, agree⟩
  have same := agree [0, 1] (by simp) 0 (by simp) 1 (by simp) 3 5 rfl rfl
  cases same

end Multilevel.Level
