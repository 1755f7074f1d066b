import Multilevel.Proofs.Level.Cut

/-!
# Nodes of the root

A node of any level ultimately stands for some nodes of the root. They are found by flattening the
parents level by level (`rootsUnder`), or from the root by following owners (`rootOwner`), and the
two agree (`mem_rootsUnder`). A partition that is written back level by level therefore gives each
node of the root the block of the one node that stands for it.
-/
namespace Multilevel.Level

variable {α : Type}

/-! ### Both ways through a hierarchy -/

def top : Level α → Level α
  | root t => root t
  | child _ parent => parent.top

/-- The node of a level that stands for a node of the root. -/
def rootOwner : Level α → NodeId → Option NodeId
  | root t, r => if r < t.graph.nodeCount then some r else none
  | child t parent, r => (parent.rootOwner r).bind (owner t.origins)

/-- The nodes of the root that a node stands for, flattened through all levels. -/
def rootsUnder : Level α → NodeId → List NodeId
  | root _, n => [n]
  | child t parent, n => (parentsAt t.origins n).flatMap parent.rootsUnder

theorem rootOwner_root {t : Tier α} {r n : NodeId} :
    (root t).rootOwner r = some n ↔ r = n ∧ r < t.graph.nodeCount := by
  unfold rootOwner
  by_cases known : r < t.graph.nodeCount
  · simp [known]
  · simp [known]

theorem lt_of_rootOwner {l : Level α} (wellFormed : l.WellFormed) {r n : NodeId}
    (found : l.rootOwner r = some n) : n < l.graph.nodeCount := by
  cases l with
  | root t =>
    obtain ⟨same, known⟩ := rootOwner_root.mp found
    exact same ▸ known
  | child t parent =>
    obtain ⟨m, -, last⟩ := Option.bind_eq_some_iff.mp found
    have bound := lt_of_owner last
    rwa [← wellFormed.origins]

theorem rootOwner_lt {l : Level α} {r n : NodeId} (found : l.rootOwner r = some n) :
    r < l.top.graph.nodeCount := by
  induction l generalizing n with
  | root t => exact (rootOwner_root.mp found).2
  | child t parent ih =>
    obtain ⟨m, first, -⟩ := Option.bind_eq_some_iff.mp found
    exact ih first

theorem WellFormed.lt_of_mem_parentsAt {l parent : Level α} (wellFormed : l.WellFormed)
    (above : l.parent? = some parent) {n m : NodeId} (listed : m ∈ parentsAt l.origins n) :
    m < parent.graph.nodeCount := by
  obtain ⟨o, read, own⟩ := mem_parentsAt.mp listed
  exact (wellFormed.child parent above).known o (List.mem_of_getElem? read) m own

section
variable [Zero α] [One α] [Add α] {l : Level α}

theorem Reachable.mem_rootsUnder (reached : l.Reachable) {n r : NodeId}
    (known : n < l.graph.nodeCount) : r ∈ l.rootsUnder n ↔ l.rootOwner r = some n := by
  induction l generalizing n with
  | root t =>
    rw [rootsUnder, List.mem_singleton, rootOwner_root]
    constructor
    · intro same
      exact ⟨same, same ▸ known⟩
    · intro found
      exact found.1
  | child t parent ih =>
    have wellFormed := reached.wellFormed
    have owned (m : NodeId) : m ∈ parentsAt t.origins n ↔ owner t.origins m = some n :=
      mem_parentsAt_iff_owner wellFormed.once
    rw [rootsUnder, rootOwner, List.mem_flatMap, Option.bind_eq_some_iff]
    -- both ways pass through the parent that the node stands for
    refine exists_congr fun m => ?_
    rw [← owned m, and_comm]
    refine and_congr_left fun listed => ?_
    exact ih (reached.parent rfl) (wellFormed.lt_of_mem_parentsAt rfl listed)

theorem Reachable.lt_of_mem_rootsUnder (reached : l.Reachable) {n r : NodeId}
    (known : n < l.graph.nodeCount) (listed : r ∈ l.rootsUnder n) : r < l.top.graph.nodeCount :=
  rootOwner_lt ((reached.mem_rootsUnder known).mp listed)

theorem Reachable.rootsUnder_disjoint (reached : l.Reachable) {n k r : NodeId}
    (left : n < l.graph.nodeCount) (right : k < l.graph.nodeCount) (different : n ≠ k)
    (listed : r ∈ l.rootsUnder n) : r ∉ l.rootsUnder k := by
  intro other
  rw [reached.mem_rootsUnder left] at listed
  rw [reached.mem_rootsUnder right] at other
  exact different (Option.some.inj (listed.symm.trans other))

theorem Reachable.nodup_flatMap_rootsUnder (reached : l.Reachable) {nodes : List NodeId}
    (once : nodes.Nodup) (known : ∀ n ∈ nodes, n < l.graph.nodeCount)
    (each : ∀ n ∈ nodes, (l.rootsUnder n).Nodup) : (nodes.flatMap l.rootsUnder).Nodup := by
  refine List.pairwise_flatMap.mpr ⟨each, once.imp_of_mem ?_⟩
  intro n k left right different r listed s other same
  subst same
  exact reached.rootsUnder_disjoint (known n left) (known k right) different listed other

theorem Reachable.nodup_rootsUnder (reached : l.Reachable) {n : NodeId}
    (known : n < l.graph.nodeCount) : (l.rootsUnder n).Nodup := by
  induction l generalizing n with
  | root t => exact List.pairwise_singleton _ n
  | child t parent ih =>
    have wellFormed := reached.wellFormed
    have above : parent.Reachable := reached.parent rfl
    have bound : ∀ m ∈ parentsAt t.origins n, m < parent.graph.nodeCount :=
      fun m listed => wellFormed.lt_of_mem_parentsAt rfl listed
    exact above.nodup_flatMap_rootsUnder (nodup_parentsAt wellFormed.once n) bound
      fun m listed => ih above (bound m listed)

theorem Reachable.rootsOf_eq (reached : l.Reachable) {n : NodeId}
    (known : n < l.graph.nodeCount) : l.rootsOf n = .ok (l.rootsUnder n) := by
  have wellFormed := reached.wellFormed
  have parents := parentsOf_eq (l := l) (wellFormed.origins ▸ known)
  induction l generalizing n with
  | root t =>
    exact bind_ok.mpr ⟨_, parents, rfl⟩
  | child t parent ih =>
    have above : parent.Reachable := reached.parent rfl
    have each : ∀ m ∈ parentsAt t.origins n, parent.rootsOf m = .ok (parent.rootsUnder m) := by
      intro m listed
      have bound := wellFormed.lt_of_mem_parentsAt rfl listed
      exact ih above bound above.wellFormed (parentsOf_eq (above.wellFormed.origins ▸ bound))
    exact bind_ok.mpr ⟨_, parents, bind_ok.mpr ⟨_, mapM_eq_map each, rfl⟩⟩

theorem Reachable.rootsOf_ok (reached : l.Reachable) {n : NodeId} {roots : List NodeId} :
    l.rootsOf n = .ok roots ↔ n < l.graph.nodeCount ∧ roots = l.rootsUnder n := by
  refine ok_iff (fun read => ?_) reached.rootsOf_eq
  rw [← reached.wellFormed.origins]
  cases l with
  | root t =>
    obtain ⟨parents, found, -⟩ := bind_ok.mp read
    exact lt_of_parentsOf found
  | child t parent =>
    obtain ⟨parents, found, -⟩ := bind_ok.mp read
    exact lt_of_parentsOf found

/-! ### Writing back to the root -/

theorem Reachable.expandToRoot_ok (reached : l.Reachable) {p : Partition}
    (length : p.length = l.graph.nodeCount) :
    ∃ q, l.expandToRoot p = .ok q ∧ q.length = l.top.graph.nodeCount ∧
      ∀ r, q.block? r = (l.rootOwner r).bind p.block? := by
  induction l generalizing p with
  | root t =>
    refine ⟨p, rfl, length, fun r => ?_⟩
    unfold rootOwner
    split
    · rfl
    · rename_i outside
      exact Partition.block?_of_le (by rw [length]; exact Nat.le_of_not_lt outside)
  | child t parent ih =>
    have wellFormed := reached.wellFormed
    have above : parent.Reachable := reached.parent rfl
    obtain ⟨q, carried, size, blocks⟩ :=
      ih above (length_expanded t.origins parent.graph.nodeCount p)
    refine ⟨q, ?_, size, fun r => ?_⟩
    · rw [expandToRoot_of_child rfl length]
      exact carried
    -- the parent of the last step has its block from its owner in the child
    · rw [blocks r, rootOwner, Option.bind_assoc]
      refine Option.bind_congr fun m found => ?_
      exact block?_expanded wellFormed.once (length.trans wellFormed.origins.symm)
        (lt_of_rootOwner above.wellFormed found)

/-- Writing a partition back level by level agrees with the flattened parents: the nodes of a level
stand for different nodes of the root, which get its block, and the rest get none. -/
theorem Reachable.expandToRoot_rootsOf (reached : l.Reachable) {p : Partition}
    (length : p.length = l.graph.nodeCount) :
    (∀ n < l.graph.nodeCount, ∃ roots, l.rootsOf n = .ok roots ∧ roots.Nodup) ∧
    (∀ n k roots others, l.rootsOf n = .ok roots → l.rootsOf k = .ok others → n ≠ k →
      ∀ r ∈ roots, r ∉ others) ∧
    ∃ q, l.expandToRoot p = .ok q ∧ q.length = l.top.graph.nodeCount ∧
      (∀ n roots, l.rootsOf n = .ok roots → ∀ r ∈ roots, q[r]? = p[n]?) ∧
      ∀ r < q.length, (∀ n roots, l.rootsOf n = .ok roots → r ∉ roots) → q[r]? = some none := by
  refine ⟨fun n known => ⟨_, reached.rootsOf_eq known, reached.nodup_rootsUnder known⟩, ?_, ?_⟩
  · intro n k roots others left right different r first second
    obtain ⟨known, rfl⟩ := reached.rootsOf_ok.mp left
    obtain ⟨bound, rfl⟩ := reached.rootsOf_ok.mp right
    exact reached.rootsUnder_disjoint known bound different first second
  · obtain ⟨q, carried, size, blocks⟩ := reached.expandToRoot_ok length
    refine ⟨q, carried, size, ?_, ?_⟩
    · intro n roots read r listed
      obtain ⟨known, rfl⟩ := reached.rootsOf_ok.mp read
      have found := (reached.mem_rootsUnder known).mp listed
      have bound : r < q.length := size ▸ rootOwner_lt found
      have inside : n < p.length := length ▸ known
      rw [Partition.getElem?_eq_block? bound, blocks, found, Partition.getElem?_eq_block? inside]
      rfl
    · intro r bound outside
      have none : l.rootOwner r = none := by
        cases found : l.rootOwner r with
        | none => rfl
        | some n =>
          have known := lt_of_rootOwner reached.wellFormed found
          exact absurd ((reached.mem_rootsUnder known).mpr found)
            (outside n _ (reached.rootsOf_eq known))
      rw [Partition.getElem?_eq_block? bound, blocks, none]
      rfl

/-- A row whose last two nodes are in no cluster. The third one is kept twice as a virtual node, and
the last one has no place in the first child. -/
theorem expandToRoot_rootsOf_line : ∃ middle lowest : Level Float,
    (ofGraph (.line Float)).coarsen [[1, 0]] ⟨true⟩ = .ok middle ∧
    middle.coarsen [[0]] ⟨true⟩ = .ok lowest ∧
    lowest.rootsOf 0 = .ok [1, 0] ∧ lowest.rootsOf 1 = .ok [2] ∧
    ∃ q, lowest.expandToRoot [some 7, some 8] = .ok q ∧
      q[0]? = some (some 7) ∧ q[1]? = some (some 7) ∧ q[2]? = some (some 8) ∧
      q[3]? = some none := by
  have top : (ofGraph (.line Float)).Reachable := .ofGraph Hypergraph.reachable_line
  obtain ⟨middle, first⟩ := ok_of_isOk
    (x := (ofGraph (.line Float)).coarsen [[1, 0]] ⟨true⟩) (by decide)
  have above := top.coarsen first
  obtain ⟨-, rfl⟩ := (coarsen_ok top.wellFormed.graph).mp first
  obtain ⟨lowest, second⟩ := ok_of_isOk
    (x := ((ofGraph (.line Float)).coarsened [[1, 0]] ⟨true⟩).coarsen [[0]] ⟨true⟩)
    (by decide +kernel)
  have reached := above.coarsen second
  obtain ⟨-, rfl⟩ := (coarsen_ok above.wellFormed.graph).mp second
  have left : (((ofGraph (.line Float)).coarsened [[1, 0]] ⟨true⟩).coarsened
      [[0]] ⟨true⟩).rootsOf 0 = .ok [1, 0] := by decide +kernel
  have right : (((ofGraph (.line Float)).coarsened [[1, 0]] ⟨true⟩).coarsened
      [[0]] ⟨true⟩).rootsOf 1 = .ok [2] := by decide +kernel
  obtain ⟨-, -, q, carried, size, blocks, rest⟩ :=
    Reachable.expandToRoot_rootsOf reached (p := [some 7, some 8]) (by decide +kernel)
  have count : q.length = 4 := size
  refine ⟨_, _, first, second, left, right, q, carried, blocks 0 _ left 0 (by simp),
    blocks 0 _ left 1 (by simp), blocks 1 _ right 2 (by simp), rest 3 (by omega) ?_⟩
  intro n roots read listed
  obtain ⟨known, -⟩ := reached.rootsOf_ok.mp read
  match n, known with
  | 0, _ =>
    obtain rfl := Except.ok.inj (left.symm.trans read)
    simp at listed
  | 1, _ =>
    obtain rfl := Except.ok.inj (right.symm.trans read)
    simp at listed

end
end Multilevel.Level
