import Multilevel.Proofs.Level.Cut

namespace Multilevel.Level

variable {α : Type}

/-! ### Agreement -/

/-- The nodes that have a block have the same one. -/
def Unanimous (p : Partition) (nodes : List NodeId) : Prop :=
  ∀ n ∈ nodes, ∀ m ∈ nodes, ∀ a b, p.block? n = some a → p.block? m = some b → a = b

theorem agree_ok {p : Partition} {c n : NodeId} {held next : Option BlockId} :
    agree p c held n = .ok next ↔
      next = held.or (p.block? n) ∧ ∀ b, p.block? n = some b → next = some b := by
  unfold agree
  cases p.block? n with
  | none => simp [eq_comm]
  | some met =>
    cases held with
    | none => simp [eq_comm]
    | some b =>
      by_cases same : b = met
      · simp [same, eq_comm]
      · simp only [if_neg same, Option.some_or, Option.some.injEq, forall_eq']
        constructor
        · nofun
        · intro ⟨first, second⟩
          exact absurd (Option.some.inj (first.symm.trans second)) same

theorem foldlM_agree_ok {p : Partition} {c : NodeId} {nodes : List NodeId}
    {held block : Option BlockId} :
    nodes.foldlM (agree p c) held = .ok block ↔
      block = held.or (nodes.findSome? p.block?) ∧
        ∀ n ∈ nodes, ∀ b, p.block? n = some b → block = some b := by
  induction nodes generalizing held with
  | nil =>
    rw [List.foldlM_nil, pure_ok, eq_comm]
    simp
  | cons n nodes ih =>
    have first : (n :: nodes).findSome? p.block? = (p.block? n).or (nodes.findSome? p.block?) := by
      rw [List.findSome?_cons]
      cases p.block? n <;> rfl
    rw [List.foldlM_cons, bind_ok, List.forall_mem_cons, first, ← Option.or_assoc]
    constructor
    · intro ⟨next, step, rest⟩
      obtain ⟨same, met⟩ := agree_ok.mp step
      obtain ⟨last, others⟩ := ih.mp rest
      refine ⟨same ▸ last, fun b found => ?_, others⟩
      rw [last, met b found, Option.some_or]
    · intro ⟨last, met, others⟩
      refine ⟨held.or (p.block? n), agree_ok.mpr ⟨rfl, fun b found => ?_⟩, ih.mpr ⟨last, others⟩⟩
      -- what the first nodes agreed on is the final block
      rw [met b found, found] at last
      cases held with
      | none => rw [Option.none_or, found]
      | some a => simpa using last.symm

theorem unanimous_iff {p : Partition} {nodes : List NodeId} : Unanimous p nodes ↔
    ∀ n ∈ nodes, ∀ b, p.block? n = some b → nodes.findSome? p.block? = some b := by
  constructor
  · intro unanimous n member b found
    cases first : nodes.findSome? p.block? with
    | none =>
      rw [List.findSome?_eq_none_iff.mp first n member] at found
      cases found
    | some a =>
      obtain ⟨m, present, held⟩ := List.exists_of_findSome?_eq_some first
      rw [unanimous m present n member a b held found]
  · intro same n first m second a b left right
    exact Option.some.inj ((same n first a left).symm.trans (same m second b right))

/-! ### Restriction -/

def restricted (origins : List Origin) (p : Partition) : Partition :=
  origins.map fun o => o.parents.findSome? p.block?

theorem length_restricted (origins : List Origin) (p : Partition) :
    (restricted origins p).length = origins.length :=
  List.length_map _

theorem getElem?_restricted {origins : List Origin} {p : Partition} {i : NodeId} {o : Origin}
    (read : origins[i]? = some o) :
    (restricted origins p)[i]? = some (o.parents.findSome? p.block?) := by
  rw [restricted, List.getElem?_map, read]
  rfl

theorem mapM_agree_ok {origins : List Origin} {p q : Partition} :
    (origins.zipIdx.mapM fun (o, c) => o.parents.foldlM (agree p c) none) = .ok q ↔
      (∀ o ∈ origins, Unanimous p o.parents) ∧ q = restricted origins p := by
  have each (e : Origin × Nat) (block : Option BlockId) :
      e.1.parents.foldlM (agree p e.2) none = .ok block ↔
        Unanimous p e.1.parents ∧ block = e.1.parents.findSome? p.block? := by
    rw [foldlM_agree_ok, Option.none_or, unanimous_iff, and_comm]
    refine and_congr_left fun same => ?_
    rw [same]
  have numbered : origins.zipIdx.map Prod.fst = origins := List.zipIdx_map_fst 0 origins
  have all : (∀ e ∈ origins.zipIdx, Unanimous p e.1.parents) ↔
      ∀ o ∈ origins, Unanimous p o.parents := by
    conv_rhs => rw [← numbered, List.forall_mem_map]
  have blocks : (origins.zipIdx.map fun e => e.1.parents.findSome? p.block?) =
      restricted origins p := by
    conv_rhs => rw [restricted, ← numbered, List.map_map]
    rfl
  rw [mapM_ok_iff each, all, blocks]

theorem restrict_ok {l parent : Level α} (above : l.parent? = some parent) {p q : Partition}
    (length : p.length = parent.graph.nodeCount) :
    l.restrict p = .ok q ↔
      (∀ o ∈ l.origins, Unanimous p o.parents) ∧ q = restricted l.origins p := by
  cases l with
  | root => cases above
  | child t base =>
    obtain rfl := Option.some.inj above
    have fits : checkLength .parentPartition base.graph.nodeCount p.length = .ok () :=
      if_pos length.symm
    rw [restrict, fits]
    exact mapM_agree_ok

/-! ### There and back -/

theorem findSome?_const {nodes : List NodeId} {f : NodeId → Option BlockId} {b : Option BlockId}
    (same : ∀ n ∈ nodes, f n = b) : nodes.findSome? f = if nodes = [] then none else b := by
  cases nodes with
  | nil => rfl
  | cons n nodes =>
    obtain ⟨first, others⟩ := List.forall_mem_cons.mp same
    rw [List.findSome?_cons, first, if_neg (List.cons_ne_nil n nodes)]
    cases b with
    | some b => rfl
    | none => exact List.findSome?_eq_none_iff.mpr others

section
variable {l parent : Level α} (wellFormed : l.WellFormed) (above : l.parent? = some parent)
include wellFormed above

theorem WellFormed.block?_parent {p : Partition} (length : p.length = l.origins.length)
    {i n : NodeId} {o : Origin} (read : l.origins[i]? = some o) (listed : n ∈ o.parents) :
    (expanded l.origins parent.graph.nodeCount p).block? n = p.block? i := by
  have known := (wellFormed.child parent above).known o (List.mem_of_getElem? read) n listed
  have own : owner l.origins n = some i := (owner_eq_some wellFormed.once).mpr ⟨o, read, listed⟩
  rw [block?_expanded wellFormed.once length known, own, Option.bind_some]

theorem WellFormed.unanimous_expanded {p : Partition} (length : p.length = l.origins.length) :
    ∀ o ∈ l.origins, Unanimous (expanded l.origins parent.graph.nodeCount p) o.parents := by
  intro o present n first m second a b left right
  obtain ⟨i, read⟩ := List.mem_iff_getElem?.mp present
  rw [wellFormed.block?_parent above length read first] at left
  rw [wellFormed.block?_parent above length read second] at right
  exact Option.some.inj (left.symm.trans right)

/-- A node without parents loses its block, and any other one gets its own back. -/
theorem WellFormed.getElem?_restricted_expanded {p : Partition}
    (length : p.length = l.origins.length) {i : NodeId} {o : Origin}
    (read : l.origins[i]? = some o) :
    (restricted l.origins (expanded l.origins parent.graph.nodeCount p))[i]? =
      if o.parents = [] then some none else p[i]? := by
  have known : i < p.length := by
    rw [length]
    exact (List.getElem?_eq_some_iff.mp read).1
  have same : ∀ n ∈ o.parents,
      (expanded l.origins parent.graph.nodeCount p).block? n = p.block? i :=
    fun n listed => wellFormed.block?_parent above length read listed
  rw [getElem?_restricted read, findSome?_const same, apply_ite some,
    Partition.getElem?_eq_block? known]

theorem WellFormed.restricted_expanded_eq_iff {p : Partition}
    (length : p.length = l.origins.length) :
    restricted l.origins (expanded l.origins parent.graph.nodeCount p) = p ↔
      ∀ (i : NodeId) (o : Origin), l.origins[i]? = some o → o.parents = [] →
        p[i]? = some none := by
  constructor
  · intro same i o read none
    have entry := wellFormed.getElem?_restricted_expanded above length read
    rwa [same, if_pos none] at entry
  · intro unassigned
    apply List.ext_getElem?
    intro i
    rcases Nat.lt_or_ge i l.origins.length with known | outside
    · have read : l.origins[i]? = some l.origins[i] := List.getElem?_eq_getElem known
      rw [wellFormed.getElem?_restricted_expanded above length read]
      split
      · rename_i none
        exact (unassigned i _ read none).symm
      · rfl
    · rw [List.getElem?_eq_none (by rwa [length_restricted]),
        List.getElem?_eq_none (by rwa [length])]

theorem WellFormed.block?_expanded_restricted {q : Partition}
    (unanimous : ∀ o ∈ l.origins, Unanimous q o.parents) {i n : NodeId} {o : Origin}
    (read : l.origins[i]? = some o) (listed : n ∈ o.parents) {b : BlockId}
    (held : q.block? n = some b) :
    (expanded l.origins parent.graph.nodeCount (restricted l.origins q)).block? n = some b := by
  have agreed := unanimous_iff.mp (unanimous o (List.mem_of_getElem? read)) n listed b held
  rw [wellFormed.block?_parent above (length_restricted _ _) read listed, Partition.block?,
    getElem?_restricted read, agreed]
  rfl

end

theorem forall_mem_origins {l : Level α} {P : List NodeId → Prop} :
    (∀ o ∈ l.origins, P o.parents) ↔ ∀ i parents, l.parentsOf i = .ok parents → P parents := by
  constructor
  · intro each i parents read
    obtain ⟨o, found, same⟩ := parentsOf_ok.mp read
    exact same ▸ each o (List.mem_of_getElem? found)
  · intro each o present
    obtain ⟨i, found⟩ := List.mem_iff_getElem?.mp present
    exact each i _ (parentsOf_ok.mpr ⟨o, found, rfl⟩)

variable [Zero α] [One α] [Add α] {l parent : Level α}

/-- Restricting an expanded partition gives it back, except that a node which stands for no parents
loses its block. A partition of the parent can be restricted when no node has parents in different
blocks, and expanding what it is restricted to keeps the blocks of all parents that have one. -/
theorem Reachable.restrict_expand (reached : l.Reachable) (above : l.parent? = some parent) :
    (∀ p : Partition, p.length = l.graph.nodeCount → ∃ q back,
      l.expand p = .ok q ∧ l.restrict q = .ok back ∧ back.length = p.length ∧
      (∀ i parents, l.parentsOf i = .ok parents →
        back[i]? = if parents = [] then some none else p[i]?) ∧
      (back = p ↔ ∀ i, l.parentsOf i = .ok [] → p[i]? = some none)) ∧
    ∀ q : Partition, q.length = parent.graph.nodeCount →
      ((∃ p, l.restrict q = .ok p) ↔
        ∀ i parents, l.parentsOf i = .ok parents → Unanimous q parents) ∧
      ∀ p, l.restrict q = .ok p → ∃ again, l.expand p = .ok again ∧
        ∀ i parents, l.parentsOf i = .ok parents → ∀ n ∈ parents, ∀ b, q.block? n = some b →
          again.block? n = some b := by
  have wellFormed := reached.wellFormed
  constructor
  · intro p length
    have count : p.length = l.origins.length := length.trans wellFormed.origins.symm
    have size := length_expanded l.origins parent.graph.nodeCount p
    have back := (restrict_ok above size).mpr ⟨wellFormed.unanimous_expanded above count, rfl⟩
    refine ⟨_, _, expand_eq above length, back, (length_restricted _ _).trans count.symm, ?_, ?_⟩
    · intro i parents read
      obtain ⟨o, found, same⟩ := parentsOf_ok.mp read
      subst same
      exact wellFormed.getElem?_restricted_expanded above count found
    · rw [wellFormed.restricted_expanded_eq_iff above count]
      simp only [parentsOf_ok]
      refine forall_congr' fun i => ?_
      simp only [forall_exists_index, and_imp]
  · intro q length
    have accepted := fun p => restrict_ok above length (q := p)
    constructor
    · rw [← forall_mem_origins]
      constructor
      · intro ⟨p, made⟩
        exact ((accepted p).mp made).1
      · intro unanimous
        exact ⟨_, (accepted _).mpr ⟨unanimous, rfl⟩⟩
    · intro p made
      obtain ⟨unanimous, same⟩ := (accepted p).mp made
      subst same
      have count := (length_restricted l.origins q).trans wellFormed.origins
      refine ⟨_, expand_eq above count, ?_⟩
      intro i parents read n listed b held
      obtain ⟨o, found, same⟩ := parentsOf_ok.mp read
      subst same
      exact wellFormed.block?_expanded_restricted above unanimous found listed held

/-- A row with an empty cluster, whose first node is kept as a virtual one. -/
theorem restrict_expand_line : ∃ child : Level Float,
    (ofGraph (.line Float)).coarsen [[1], [], [3, 2]] ⟨true⟩ = .ok child ∧
    child.parentsOf 1 = .ok [] ∧
    (∃ q back, child.expand [some 4, some 9, none, some 5] = .ok q ∧ child.restrict q = .ok back ∧
      back ≠ [some 4, some 9, none, some 5] ∧ back[1]? = some none ∧ back[3]? = some (some 5)) ∧
    (¬ ∃ p, child.restrict [some 1, none, some 2, some 1] = .ok p) ∧
    ∃ p again, child.restrict [some 1, none, some 2, none] = .ok p ∧ child.expand p = .ok again ∧
      again.block? 2 = some 2 := by
  have top : (ofGraph (.line Float)).Reachable := .ofGraph Hypergraph.reachable_line
  obtain ⟨child, made⟩ := ok_of_isOk
    (x := (ofGraph (.line Float)).coarsen [[1], [], [3, 2]] ⟨true⟩) (by decide)
  have reached := top.coarsen made
  obtain ⟨-, rfl⟩ := (coarsen_ok top.wellFormed.graph).mp made
  obtain ⟨down, up⟩ := Reachable.restrict_expand reached rfl
  obtain ⟨q, back, spread, gathered, -, entries, same⟩ :=
    down [some 4, some 9, none, some 5] (by decide +kernel)
  have bare : ((ofGraph (.line Float)).coarsened [[1], [], [3, 2]] ⟨true⟩).parentsOf 1 =
      .ok [] := by decide +kernel
  have virtual : ((ofGraph (.line Float)).coarsened [[1], [], [3, 2]] ⟨true⟩).parentsOf 3 =
      .ok [0] := by decide +kernel
  have pair : ((ofGraph (.line Float)).coarsened [[1], [], [3, 2]] ⟨true⟩).parentsOf 2 =
      .ok [3, 2] := by decide +kernel
  obtain ⟨p, accepted⟩ := ok_of_isOk (x := ((ofGraph (.line Float)).coarsened
    [[1], [], [3, 2]] ⟨true⟩).restrict [some 1, none, some 2, none]) (by decide +kernel)
  obtain ⟨again, carried, kept⟩ := (up _ (by decide +kernel)).2 p accepted
  refine ⟨_, made, bare, ⟨q, back, spread, gathered, ?_, entries 1 _ bare, entries 3 _ virtual⟩,
    ?_, p, again, accepted, carried, kept 2 _ pair 2 (by simp) 2 rfl⟩
  · intro unchanged
    cases same.mp unchanged 1 bare
  · intro agreed
    have unanimous := (up _ (by decide +kernel)).1.mp agreed 2 _ pair
    cases unanimous 3 (by simp) 2 (by simp) 1 2 rfl rfl

end Multilevel.Level
