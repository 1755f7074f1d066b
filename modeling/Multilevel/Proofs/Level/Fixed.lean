import Multilevel.Proofs.Level.Composition
import Multilevel.Proofs.Level.Transfer

/-!
# Fixed nodes across levels

A child that was just made takes over the blocks that the members of its clusters are fixed to, and
no others. A partition that respects them respects the fixed members when it is written back. A
virtual node takes over nothing, so its parent gets whatever block the partition gives to it.
-/
namespace Multilevel.Level

variable {α : Type}

/-! ### Inheritance -/

/-- What a child that was just made takes over from its parent. -/
structure Inherits (child parent : Level α) : Prop where
  real : ∀ (i : NodeId) (o : Origin), child.origins[i]? = some o → o.isVirtual = false →
    ∀ b, child.fixed.get? i = some b ↔ ∃ n ∈ o.parents, parent.fixed.get? n = some b
  virtual : ∀ (i : NodeId) (o : Origin), child.origins[i]? = some o → o.isVirtual = true →
    child.fixed.get? i = none

theorem inherits_of_fixed {child parent : Level α} {clusters : Clustering}
    {options : CoarsenOptions} (agree : ∀ members ∈ clusters, parent.Agree members)
    (fixed : child.fixed = parent.inherited 0 clusters)
    (origins : child.origins = parent.childOrigins clusters options) : child.Inherits parent where
  real i o read real b := by
    rw [origins] at read
    obtain ⟨members, clustered, same⟩ := getElem?_childOrigins_cluster read real
    rw [get?_fixed_eq_some fixed agree, Clustering.members, clustered, same]
    rfl
  virtual i o read virtual := by
    rw [origins] at read
    have outside := (getElem?_childOrigins_boundary read virtual).1
    rw [get?_fixed fixed, Clustering.members, List.getElem?_eq_none outside]
    rfl

section
variable [Zero α] [Add α]

/-- The children of a level, each made in one step. -/
inductive Makes (parent : Level α) : Level α → Prop
  | coarsen {child : Level α} {clusters : Clustering} {options : CoarsenOptions}
    (made : parent.coarsen clusters options = .ok child) : Makes parent child
  | coarsenByBlock {child : Level α} {clusters : Clustering} {count : Nat} {p : Partition}
    (made : parent.coarsenByBlock clusters count p = .ok child) : Makes parent child

theorem Makes.inherits {parent child : Level α} (made : parent.Makes child)
    (wellFormed : parent.graph.WellFormed) : child.Inherits parent := by
  cases made with
  | coarsen made =>
    obtain ⟨accepts, rfl⟩ := (coarsen_ok wellFormed).mp made
    exact inherits_of_fixed accepts.agree rfl origins_coarsened
  | coarsenByBlock made =>
    obtain ⟨accepts, rfl⟩ := (coarsenByBlock_ok wellFormed).mp made
    exact inherits_of_fixed accepts.agree rfl
      (origins_coarsenedByBlock.trans childOrigins_default.symm)

theorem Makes.above {parent child : Level α} (made : parent.Makes child)
    (wellFormed : parent.graph.WellFormed) : child.parent? = some parent := by
  cases made with
  | coarsen made =>
    obtain ⟨-, rfl⟩ := (coarsen_ok wellFormed).mp made
    rfl
  | coarsenByBlock made =>
    obtain ⟨-, rfl⟩ := (coarsenByBlock_ok wellFormed).mp made
    rfl

variable [One α]

theorem Makes.reachable {parent child : Level α} (made : parent.Makes child)
    (reached : parent.Reachable) : child.Reachable := by
  cases made with
  | coarsen made => exact reached.coarsen made
  | coarsenByBlock made => exact reached.coarsenByBlock made

/-! ### Writing back -/

/-- A partition of a new child that respects the fixed nodes of the child respects those of the
parent that are in its clusters. The parent of a virtual node gets the block of that node, which
is not fixed. -/
theorem Makes.expand_fixed {parent child : Level α} (made : parent.Makes child)
    (reached : parent.Reachable) {p : Partition} (length : p.length = child.graph.nodeCount)
    (respects : ∀ i b, child.fixed.get? i = some b → p.block? i = some b) :
    ∃ q, child.expand p = .ok q ∧
      ∀ n b, parent.fixed.get? n = some b → ∀ i parents, child.parentsOf i = .ok parents →
        n ∈ parents →
          (child.isVirtual i = .ok false → q.block? n = some b) ∧
          (child.isVirtual i = .ok true →
            child.fixed.get? i = none ∧ q.block? n = p.block? i) := by
  have above := made.above reached.wellFormed.graph
  have inherits := made.inherits reached.wellFormed.graph
  have wellFormed := (made.reachable reached).wellFormed
  have count : p.length = child.origins.length := length.trans wellFormed.origins.symm
  refine ⟨_, expand_eq above length, ?_⟩
  intro n b fixed i parents read listed
  obtain ⟨o, found, same⟩ := parentsOf_ok.mp read
  subst same
  have block := wellFormed.block?_parent above count found listed
  constructor
  · intro real
    obtain ⟨u, again, real⟩ := (isVirtual_ok wellFormed.inStep).mp real
    obtain rfl := Option.some.inj (found.symm.trans again)
    have taken := (inherits.real i o found real b).mpr ⟨n, listed, fixed⟩
    rw [block, respects i b taken]
  · intro virtual
    obtain ⟨u, again, virtual⟩ := (isVirtual_ok wellFormed.inStep).mp virtual
    obtain rfl := Option.some.inj (found.symm.trans again)
    exact ⟨inherits.virtual i o found virtual, block⟩

def pinned : Level Float := (ofGraph (.line Float)).withFixed [(0, 3), (1, 5)]

theorem reachable_pinned : pinned.Reachable := by
  have made : (ofGraph (.line Float)).setFixed [(0, 3), (1, 5)] = .ok pinned := rfl
  exact .setFixed (.ofGraph Hypergraph.reachable_line) made

theorem accepted_pinned :
    pinned.coarsen [[2, 0]] ⟨true⟩ = .ok (pinned.coarsened [[2, 0]] ⟨true⟩) := by
  obtain ⟨child, made⟩ := ok_of_isOk (x := pinned.coarsen [[2, 0]] ⟨true⟩) (by decide)
  obtain ⟨-, rfl⟩ := (coarsen_ok reachable_pinned.wellFormed.graph).mp made
  exact made

theorem respects_pinned (i : NodeId) (b : BlockId)
    (fixed : (pinned.coarsened [[2, 0]] ⟨true⟩).fixed.get? i = some b) :
    Partition.block? [some 3, some 7, none] i = some b := by
  have whole : (pinned.coarsened [[2, 0]] ⟨true⟩).fixed = [(0, 3)] := by decide +kernel
  rw [whole] at fixed
  cases i with
  | zero => exact fixed
  | succ => simp [Dictionary.get?, List.lookup_cons] at fixed

/-- One of the nodes is in the cluster. The other one is kept as a virtual node. -/
theorem expand_fixed_pinned : ∃ child q, pinned.coarsen [[2, 0]] ⟨true⟩ = .ok child ∧
    child.expand [some 3, some 7, none] = .ok q ∧ q.block? 0 = some 3 ∧
    child.fixed.get? 1 = none ∧ q.block? 1 = some 7 := by
  obtain ⟨q, carried, blocks⟩ := Makes.expand_fixed (.coarsen accepted_pinned) reachable_pinned
    (by decide +kernel) respects_pinned
  have real := (blocks 0 3 rfl 0 [2, 0] (by decide +kernel) (by simp)).1
  have virtual := (blocks 1 5 rfl 1 [1] (by decide +kernel) (by simp)).2
  obtain ⟨free, block⟩ := virtual (by decide +kernel)
  exact ⟨_, q, accepted_pinned, carried, real (by decide +kernel), free, block⟩

/-- A fixed node can lose its block where it is kept as a virtual one. -/
theorem expand_unfixed_pinned : ∃ (child : Level Float) (p q : Partition),
    pinned.Reachable ∧ pinned.coarsen [[2, 0]] ⟨true⟩ = .ok child ∧
    p.length = child.graph.nodeCount ∧
    (∀ i b, child.fixed.get? i = some b → p.block? i = some b) ∧
    child.expand p = .ok q ∧
    pinned.fixed.get? 1 = some 5 ∧ child.parentsOf 1 = .ok [1] ∧ q.block? 1 ≠ some 5 := by
  have carried : (pinned.coarsened [[2, 0]] ⟨true⟩).expand [some 3, some 7, none] =
      .ok [some 3, some 7, some 3, none] := by decide +kernel
  exact ⟨_, _, _, reachable_pinned, accepted_pinned, by decide +kernel, respects_pinned, carried,
    rfl, by decide +kernel, by decide⟩

end
end Multilevel.Level
