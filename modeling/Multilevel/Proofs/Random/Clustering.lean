import Multilevel.Proofs.Level.Covering
import Multilevel.Proofs.Random.Choice
import Multilevel.Proofs.Random.Strict

namespace Multilevel.Random

/-- Some clusters after some nodes have been dealt, each with the number of its turn. The first
turns go to the clusters in order. -/
structure Dealt (count : Nat) (turns : List (NodeId × Nat)) (clusters : Clustering) : Prop where
  count : clusters.length = count
  members : clusters.flatten.Perm (turns.map Prod.fst)
  seeded : ∀ turn ∈ turns, ∀ members, clusters[turn.2]? = some members → members ≠ []

variable {count : Nat}

theorem dealt_nil (count : Nat) : Dealt count [] (List.replicate count []) where
  count := List.length_replicate
  members := by rw [List.flatten_replicate_nil]; exact .rfl
  seeded := nofun

theorem perm_flatten_modify {clusters : Clustering} {slot : Nat} (inside : slot < clusters.length)
    (n : NodeId) : (clusters.modify slot (· ++ [n])).flatten.Perm (clusters.flatten ++ [n]) := by
  obtain ⟨before, members, after, rfl, -, changed⟩ := List.exists_of_modify (· ++ [n]) inside
  rw [changed]
  simp only [List.flatten_append, List.flatten_cons, List.append_assoc]
  exact .append_left _ (.append_left _ List.perm_append_comm)

theorem Dealt.deal {turns : List (NodeId × Nat)} {clusters : Clustering} {n : NodeId} {i slot : Nat}
    (dealt : Dealt count turns clusters) (inside : slot < count) (own : i < count → slot = i) :
    Dealt count (turns ++ [(n, i)]) (clusters.modify slot (· ++ [n])) where
  count := (List.length_modify _ _ _).trans dealt.count
  members := by
    rw [List.map_append]
    exact (perm_flatten_modify (dealt.count.symm ▸ inside) n).trans (dealt.members.append_right _)
  seeded := by
    -- a cluster holds what it held, and the new node if it is dealt to it
    have read (j : Nat) (members : List NodeId)
        (found : (clusters.modify slot (· ++ [n]))[j]? = some members) : ∃ held,
          clusters[j]? = some held ∧ (if slot = j then held ++ [n] else held) = members := by
      rw [List.getElem?_modify] at found
      exact Option.map_eq_some_iff.mp found
    refine List.forall_mem_append.mpr ⟨fun turn earlier members found => ?_, ?_⟩
    · obtain ⟨held, before, rfl⟩ := read _ _ found
      have kept := dealt.seeded turn earlier held before
      split
      · exact List.append_ne_nil_of_left_ne_nil kept _
      · exact kept
    · intro turn last members found
      obtain rfl := List.mem_singleton.mp last
      obtain ⟨held, before, rfl⟩ := read _ _ found
      have bound : i < count := dealt.count ▸ (List.getElem?_eq_some_iff.mp before).1
      rw [if_pos (own bound)]
      exact List.append_ne_nil_of_right_ne_nil _ (List.cons_ne_nil n [])

/-- Clusters in increasing order, none of them empty, with every node in one of them. -/
structure Splits (nodes count : Nat) (clusters : Clustering) : Prop where
  count : clusters.length = count
  nonempty : ∀ members ∈ clusters, members ≠ []
  increasing : ∀ members ∈ clusters, members.Pairwise (· < ·)
  once : clusters.flatten.Perm (List.range nodes)

theorem Dealt.splits {nodes : Nat} {order : List NodeId} {clusters : Clustering}
    (dealt : Dealt count order.zipIdx clusters) (same : order.Perm (List.range nodes))
    (enough : count ≤ nodes) : Splits nodes count (clusters.map (·.mergeSort (· ≤ ·))) := by
  have all : clusters.flatten.Perm (List.range nodes) := by
    refine dealt.members.trans ?_
    rwa [List.zipIdx_map_fst]
  have distinct : ∀ members ∈ clusters, members.Nodup :=
    (List.nodup_flatten.mp (all.nodup_iff.mpr List.nodup_range)).1
  refine ⟨(List.length_map _).trans dealt.count, ?_, ?_, ?_⟩
  · refine List.forall_mem_map.mpr fun members present => ?_
    obtain ⟨i, read⟩ := List.mem_iff_getElem?.mp present
    -- there are enough nodes for a turn with the number of this cluster
    have turn : i < order.length := by
      have bound := (List.getElem?_eq_some_iff.mp read).1
      rw [dealt.count] at bound
      rw [same.length_eq, List.length_range]
      exact Nat.lt_of_lt_of_le bound enough
    have held : members ≠ [] := dealt.seeded (order[i], i)
      (List.mem_zipIdx_iff_getElem?.mpr (List.getElem?_eq_getElem turn)) members read
    exact fun none => held (List.Perm.nil_eq (none ▸ List.mergeSort_perm members _)).symm
  · exact List.forall_mem_map.mpr fun members present => increasing_mergeSort (distinct _ present)
  · refine (List.Perm.flatten_congr ?_).trans all
    exact List.forall₂_map_left_iff.mpr
      (List.forall₂_same.mpr fun members _ => List.mergeSort_perm members _)

theorem always_deal {nodes : Nat} {order : List NodeId} (same : order.Perm (List.range nodes))
    (positive : 0 < count) (enough : count ≤ nodes) :
    Always (Splits nodes count) (deal count order) := by
  refine (always_foldlM (P := Dealt count) (dealt_nil count) ?_).bind fun clusters dealt =>
    always_pure (dealt.splits same enough)
  intro before turn after clusters _ dealt
  dsimp only
  split
  · rename_i first
    exact (always_pure (P := (· = turn.2)) rfl).bind fun slot own =>
      always_pure (dealt.deal (own ▸ first) fun _ => own)
  · rename_i later
    exact (always_below64 positive).bind fun slot inside =>
      always_pure (dealt.deal inside fun first => absurd first later)

variable {nodes : Nat} {s rest : Stream} {clusters : Clustering}

theorem exists_clustering (positive : 1 ≤ count) (enough : count ≤ nodes) (s : Stream) :
    ∃ clusters rest, clustering nodes count s = .ok (clusters, rest) ∧
      Splits nodes count clusters := by
  have run : clustering nodes count s =
      .ok ((do deal count (← shuffle (List.range nodes))).run s) :=
    if_neg fun refused => by omega
  have splits := (always_shuffle (List.range nodes)).bind (f := deal count)
    fun order same => always_deal same positive enough
  exact ⟨_, _, run, splits s⟩

theorem clustering_ok : (∃ drawn, clustering nodes count s = .ok drawn) ↔
    1 ≤ count ∧ count ≤ nodes := by
  constructor
  · rintro ⟨drawn, made⟩
    unfold clustering at made
    split at made
    · cases made
    · omega
  · rintro ⟨positive, enough⟩
    obtain ⟨clusters, rest, made, -⟩ := exists_clustering positive enough s
    exact ⟨_, made⟩

theorem splits_of_clustering (made : clustering nodes count s = .ok (clusters, rest)) :
    Splits nodes count clusters := by
  obtain ⟨positive, enough⟩ := clustering_ok.mp ⟨_, made⟩
  obtain ⟨others, _, again, splits⟩ := exists_clustering positive enough s
  obtain ⟨rfl, -⟩ := Prod.mk.inj (Except.ok.inj (made.symm.trans again))
  exact splits

/-- A root with as many nodes, none of which is fixed, accepts the clusters and keeps its weight. -/
theorem Splits.coarsen {α : Type} [Zero α] [One α] [Add α] (splits : Splits nodes count clusters)
    {root : Level α} (options : CoarsenOptions) (reached : root.Reachable)
    (top : root.parent? = none) (free : root.fixed = []) (size : root.graph.nodeCount = nodes) :
    ∃ child, root.coarsen clusters options = .ok child ∧ child.graph.nodeCount = count ∧
      (ExactAddition α → ∃ total, root.graph.totalNodeWeight = .ok total ∧
        child.graph.totalNodeWeight = .ok total) := by
  cases root with
  | child => cases top
  | root t =>
    have wellFormed : t.graph.WellFormed := reached.wellFormed.graph
    have once : clusters.flatten.Perm (List.range t.graph.nodeCount) := size ▸ splits.once
    rw [Level.eq_ofGraph reached.wellFormed free]
    have whole := Hypergraph.totalNodeWeight_eq wellFormed
    refine ⟨_, Level.coarsen_of_perm once wellFormed options, ?_, fun exact => ⟨_, whole, ?_⟩⟩
    · exact Level.nodeCount_coarsened.trans splits.count
    · exact (Level.totalNodeWeight_of_perm once wellFormed exact).trans whole

/-- Whatever the stream, there is a clustering whenever there can be one, and no draw asks for a
number from an empty range. It deals all nodes to clusters that are not empty, so a root accepts it
and weighs what its child weighs. -/
theorem clustering_covers (nodes count : Nat) (s : Stream) :
    Strict.clustering nodes count s = some (clustering nodes count s) ∧
    ((∃ drawn, clustering nodes count s = .ok drawn) ↔ 1 ≤ count ∧ count ≤ nodes) ∧
    ∀ clusters rest, clustering nodes count s = .ok (clusters, rest) →
      clusters.length = count ∧
      (∀ members ∈ clusters, members ≠ [] ∧ members.Pairwise (· < ·)) ∧
      clusters.flatten.Perm (List.range nodes) ∧
      ∀ {α : Type} [Zero α] [One α] [Add α] (root : Level α) (options : CoarsenOptions),
        root.Reachable → root.parent? = none → root.fixed = [] → root.graph.nodeCount = nodes →
          ∃ child, root.coarsen clusters options = .ok child ∧ child.graph.nodeCount = count ∧
            (ExactAddition α → ∃ total, root.graph.totalNodeWeight = .ok total ∧
              child.graph.totalNodeWeight = .ok total) := by
  refine ⟨Strict.clustering_eq nodes count s, clustering_ok, fun clusters rest made => ?_⟩
  have splits := splits_of_clustering made
  refine ⟨splits.count, fun members present => ?_, splits.once, ?_⟩
  · exact ⟨splits.nonempty members present, splits.increasing members present⟩
  · exact fun root options reached top free size => splits.coarsen options reached top free size

/-- Four nodes in a row, dealt to three clusters: one of them has two nodes. -/
theorem clustering_covers_line :
    let root : Level Rat := .ofGraph (.line Rat)
    ∃ clusters rest, clustering 4 3 (.ofSeed 7) = .ok (clusters, rest) ∧
      clusters.length = 3 ∧ (∀ members ∈ clusters, members ≠ [] ∧ members.Pairwise (· < ·)) ∧
      clusters.flatten.Perm [0, 1, 2, 3] ∧
      ∃ child, root.coarsen clusters ⟨true⟩ = .ok child ∧ child.graph.nodeCount = 3 ∧
        root.graph.totalNodeWeight = .ok [4] ∧ child.graph.totalNodeWeight = .ok [4] := by
  intro root
  obtain ⟨⟨clusters, rest⟩, made⟩ := ok_of_isOk (x := clustering 4 3 (.ofSeed 7)) (by decide)
  obtain ⟨length, each, once, accepted⟩ :=
    (clustering_covers 4 3 (.ofSeed 7)).2.2 clusters rest made
  obtain ⟨child, coarsened, size, weighs⟩ :=
    accepted root ⟨true⟩ (.ofGraph Hypergraph.reachable_line) rfl rfl rfl
  obtain ⟨total, whole, same⟩ := weighs exactAddition_rat
  have four : root.graph.totalNodeWeight = .ok [4] := by decide +kernel
  obtain rfl : [4] = total := Except.ok.inj (four.symm.trans whole)
  exact ⟨clusters, rest, made, length, each, once, child, coarsened, size, four, same⟩

end Multilevel.Random
