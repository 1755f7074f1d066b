import Multilevel.Proofs.Hypergraph.Queries
import Multilevel.Proofs.Hypergraph.Reachable
import Multilevel.Proofs.Hypergraph.Search
import Multilevel.Proofs.Sample

/-!
# Queries find what they look up

On a well-formed graph no step of a query misses: a member has a block, a block has a row, a node of
a search has a mark. A query and its version with lookups that may miss agree, so all that can
happen to it besides a result is a fault that it reports (`Lookups`).
-/
namespace Multilevel.Hypergraph
namespace Strict

variable {α β γ : Type}

/-! ### Cuts -/

variable {g : Hypergraph α} {p : Partition} {e : Edge α}

theorem assigned_eq (inside : ∀ n ∈ e.members, n < p.length) :
    assigned e p = .ok (e.assigned p) := by
  have blocks : e.members.mapM (lookup p) = .ok (e.members.map p.block?) :=
    mapM_eq_map fun n member => lookup_ok.mpr (Partition.getElem?_eq_block? (inside n member))
  rw [assigned, blocks, Edge.assigned]
  exact congrArg Except.ok (List.filterMap_map ..)

theorem isCut_eq (inside : ∀ n ∈ e.members, n < p.length) : isCut e p = .ok (e.isCut p) := by
  rw [isCut, assigned_eq inside, Edge.isCut]
  cases e.assigned p <;> rfl

section
variable [Zero α] [Add α]

theorem sumCut_eq {dim : Nat} {edges : List (Edge α)}
    (inside : ∀ e ∈ edges, ∀ n ∈ e.members, n < p.length) :
    sumCut p dim edges =
      reported (Weight.sum dim ((edges.filter (·.isCut p)).map Edge.weights)) := by
  rw [Weight.sum, List.foldlM_map, List.foldlM_filter, reported_foldlM]
  refine foldlM_congr fun sum e member => ?_
  rw [isCut_eq (inside e member)]
  change (if e.isCut p then _ else _) = _
  cases e.isCut p <;> rfl

end

theorem fitting_eq {strict : Unit → Except Stop β} {k : Unit → Except Fault β}
    (rest : p.length = g.nodeCount → strict () = reported (k ())) :
    reported (g.checkPartition p) >>= strict = reported (g.checkPartition p >>= k) := by
  rw [reported_bind]
  cases fits : g.checkPartition p with
  | error fault => rfl
  | ok u => exact rest (checkPartition_ok.mp fits)

theorem WellFormed.inside (wellFormed : g.WellFormed) (length : p.length = g.nodeCount) :
    ∀ e ∈ g.edges, ∀ n ∈ e.members, n < p.length :=
  fun e member => length ▸ (wellFormed.edges e member).known

section
variable [Zero α] [Add α]

theorem cut_eq (wellFormed : g.WellFormed) (p : Partition) :
    cut g p = reported (g.cut p) :=
  fitting_eq fun length => sumCut_eq (WellFormed.inside wellFormed length)

theorem cutAt_eq (wellFormed : g.WellFormed) (p : Partition) (n : NodeId) :
    cutAt g p n = reported (g.cutAt p n) := by
  refine fitting_eq fun length => ?_
  rw [← bind_assoc]
  cases read : g.incident n >>= fun edges => edges.mapM g.edge with
  | error fault => rfl
  | ok edges =>
    refine sumCut_eq fun e member => ?_
    obtain ⟨numbers, -, found⟩ := bind_ok.mp read
    obtain ⟨i, -, present⟩ := exists_of_mapM found member
    exact WellFormed.inside wellFormed length e (List.mem_of_getElem? (edge_ok.mp present))

omit [Zero α] [Add α] in
theorem isCutEdge_eq (wellFormed : g.WellFormed) (e : EdgeId) (p : Partition) :
    isCutEdge g e p = reported (g.isCutEdge e p) := by
  refine fitting_eq fun length => ?_
  rw [reported_bind]
  cases read : g.edge e with
  | error fault => rfl
  | ok edge =>
    have present := List.mem_of_getElem? (edge_ok.mp read)
    exact isCut_eq (WellFormed.inside wellFormed length edge present)

/-! ### Blocks -/

omit [Zero α] [Add α] in
theorem blockCount_eq (small : ∀ b, some b ∈ p → b < 2 ^ 64 - 1) :
    blockCount p = .ok p.blockCount := by
  have fits : p.blockCount ≤ 2 ^ 64 - 1 := Partition.blockCount_le_iff.mpr small
  exact if_pos (Nat.lt_of_le_of_lt fits (by decide))

omit [Zero α] in
theorem addAt_eq {sizes : List (List α)} {b : BlockId} {w : List α} (inside : b < sizes.length) :
    addAt sizes b w = reported (Hypergraph.addAt sizes b w) := by
  obtain ⟨size, found, read⟩ := exists_lookup inside
  rw [addAt, found, Hypergraph.addAt, read]
  exact (reported_bind (Weight.add size w) fun sum => pure (sizes.set b sum)).symm

omit [Zero α] in
theorem length_addAt {sizes next : List (List α)} {b : BlockId} {w : List α}
    (added : Hypergraph.addAt sizes b w = .ok next) : next.length = sizes.length := by
  unfold Hypergraph.addAt at added
  split at added
  · obtain ⟨sum, -, same⟩ := bind_ok.mp added
    rw [← pure_ok.mp same, List.length_set]
  · rw [pure_ok.mp added]

omit [Zero α] in
theorem rows_addAt {sizes next : List (List α)} {b : BlockId} {w : List α} {dim : Nat}
    (added : Hypergraph.addAt sizes b w = .ok next) (rows : ∀ size ∈ sizes, size.length = dim) :
    ∀ size ∈ next, size.length = dim := by
  unfold Hypergraph.addAt at added
  split at added
  · rename_i old read
    obtain ⟨sum, summed, same⟩ := bind_ok.mp added
    rw [← pure_ok.mp same]
    intro size member
    rcases List.mem_or_eq_of_mem_set member with before | rfl
    · exact rows size before
    · exact (Weight.length_of_add summed).trans (rows old (List.mem_of_getElem? read))
  · rw [← pure_ok.mp added]
    exact rows

theorem blockWeights_eq (small : ∀ b, some b ∈ p → b < 2 ^ 64 - 1) :
    blockWeights g p = reported (g.blockWeights p) := by
  refine fitting_eq fun length => ?_
  rw [blockCount_eq small, reported_foldlM]
  -- every round finds as many rows as there are blocks
  refine foldlM_congr_where (fun sizes => sizes.length = p.blockCount) ?_ ?_ List.length_replicate
  · rintro sizes ⟨⟨node, block⟩, n⟩ member size
    cases block with
    | none => rfl
    | some b =>
      have listed : some b ∈ p := (List.of_mem_zip (List.fst_mem_of_mem_zipIdx member)).2
      exact addAt_eq (size ▸ Partition.lt_blockCount_of_mem listed)
  · rintro sizes ⟨⟨node, block⟩, n⟩ member size next added
    cases block with
    | none => cases added
    | some b => exact (length_addAt (mapError_ok.mp added)).trans size

omit [Zero α] in
theorem foldlM_addAt_eq {count : Nat} {sizes : List (List α)} {blocks : List BlockId} {w : List α}
    (size : sizes.length = count) (inside : ∀ b ∈ blocks, b < count) :
    blocks.foldlM (fun sizes b => addAt sizes b w) sizes =
      reported (blocks.foldlM (fun sizes b => Hypergraph.addAt sizes b w) sizes) := by
  rw [reported_foldlM]
  exact foldlM_congr_where (fun sizes => sizes.length = count)
    (fun sizes b member size => addAt_eq (size ▸ inside b member))
    (fun sizes b _ size next added => (length_addAt (mapError_ok.mp added)).trans size) size

theorem blockCuts_eq (wellFormed : g.WellFormed) (small : ∀ b, some b ∈ p → b < 2 ^ 64 - 1) :
    blockCuts g p = reported (g.blockCuts p) := by
  refine fitting_eq fun length => ?_
  rw [blockCount_eq small, List.foldlM_filter, reported_foldlM]
  refine foldlM_congr_where (fun sizes => sizes.length = p.blockCount) ?_ ?_ List.length_replicate
  · intro sizes e member size
    have inside : ∀ b ∈ e.blocks p, b < p.blockCount := fun b listed => by
      obtain ⟨n, -, held⟩ := Edge.mem_imageAlong.mp listed
      exact Partition.lt_blockCount held
    have spans : e.isCut p = true ↔ 1 < (e.blocks p).length := Edge.isCut_iff
    rw [assigned_eq (WellFormed.inside wellFormed length e member)]
    change (if 1 < (e.blocks p).length then
      (e.blocks p).foldlM (fun sizes b => addAt sizes b e.weights) sizes else _) = _
    by_cases cut : e.isCut p = true
    · rw [if_pos (spans.mp cut), if_pos cut, foldlM_addAt_eq size inside]
    · rw [if_neg (mt spans.mpr cut), if_neg cut]
      rfl
  · intro sizes e _ size next added
    have done := mapError_ok.mp added
    by_cases cut : e.isCut p = true
    · rw [if_pos cut] at done
      exact foldlM_keeps (fun sizes => sizes.length = p.blockCount)
        (fun sizes b next _ size step => (length_addAt step).trans size) size done
    · rw [if_neg cut] at done
      rw [← pure_ok.mp done, size]

section
variable [Neg α] [Sub α] [Div α] [NatCast α] [LE α] [DecidableLE α] [Gauge α]

omit [Neg α] [Sub α] [Div α] [NatCast α] [LE α] [DecidableLE α] [Gauge α] in
theorem rows_blockWeights {sizes : List (List α)} (sums : g.blockWeights p = .ok sizes) :
    ∀ size ∈ sizes, size.length = g.nodeDim := by
  obtain ⟨_, -, sums⟩ := bind_ok.mp sums
  refine foldlM_keeps (fun sizes => ∀ size ∈ sizes, size.length = g.nodeDim) ?_ ?_ sums
  · rintro sizes ⟨⟨node, block⟩, n⟩ next - rows added
    cases block with
    | none => cases added
    | some b => exact rows_addAt added rows
  · exact fun size member => (List.mem_replicate.mp member).2 ▸ Weight.length_zeros _

theorem blockImbalance_eq (small : ∀ b, some b ∈ p → b < 2 ^ 64 - 1) :
    blockImbalance g p = reported (g.blockImbalance p) := by
  rw [blockImbalance, Hypergraph.blockImbalance, blockWeights_eq small]
  cases sums : g.blockWeights p with
  | error fault => rfl
  | ok sizes =>
    have rows := rows_blockWeights sums
    have columns : (List.range g.nodeDim).mapM (fun d => sizes.mapM (lookup · d)) =
        .ok ((List.range g.nodeDim).map fun d => sizes.filterMap (·[d]?)) :=
      mapM_eq_map fun d below => mapM_eq_filterMap fun size member =>
        exists_lookup (rows size member ▸ List.mem_range.mp below)
    change ((List.range g.nodeDim).mapM (fun d => sizes.mapM (lookup · d)) >>= _) = _
    rw [columns]
    rfl

end

theorem memberWeight_eq (wellFormed : g.WellFormed) (e : EdgeId) :
    memberWeight g e = reported (g.memberWeight e) := by
  rw [memberWeight, Hypergraph.memberWeight, reported_bind]
  cases read : g.members e with
  | error fault => rfl
  | ok members =>
    obtain ⟨edge, found, rfl⟩ := map_ok.mp read
    have known := (wellFormed.edges edge (List.mem_of_getElem? (edge_ok.mp found))).known
    obtain ⟨nodes, looked⟩ := exists_mapM (f := lookup g.nodes) fun n member =>
      (exists_lookup (known n member)).imp fun _ => And.left
    have weights : edge.members.mapM g.nodeWeights = .ok (nodes.map Node.weights) := by
      refine mapM_ok.mpr (List.forall₂_map_right_iff.mpr
        ((mapM_ok.mp looked).imp fun n node found => ?_))
      exact map_ok.mpr ⟨node, node_ok.mpr (lookup_ok.mp found), rfl⟩
    change (edge.members.mapM (lookup g.nodes) >>= _) =
      reported (edge.members.mapM g.nodeWeights >>= _)
    rw [looked, weights]
    rfl

end

/-! ### Overviews -/

section
variable [Zero α] [Neg α] [Add α] [Sub α] [Mul α] [Div α] [NatCast α] [LE α] [DecidableLE α]
  [LT α] [DecidableLT α] [Gauge α]

omit [Neg α] [Add α] [Mul α] [LE α] [DecidableLE α] in
theorem foldlM_tally (s : Spread α) {buckets : Nat} (some : 0 < buckets) (values : List α)
    (row : Nat → Bucket α) :
    values.foldlM (tally s buckets) ((List.range buckets).map row) =
      .ok ((List.range buckets).map fun i =>
        raise (row i) (values.countP fun v => s.slot buckets v == i)) := by
  induction values generalizing row with
  | nil => rfl
  | cons v values ih =>
    have inside : s.slot buckets v < buckets := Spread.slot_lt some v
    have read : ((List.range buckets).map row)[s.slot buckets v]? =
        Option.some (row (s.slot buckets v)) := by
      rw [List.getElem?_map, List.getElem?_range inside]
      rfl
    have first : tally s buckets ((List.range buckets).map row) v = .ok ((List.range buckets).map
        fun i => if i = s.slot buckets v then raise (row (s.slot buckets v)) 1 else row i) := by
      rw [tally, lookup_ok.mpr read, ← set_table]
      rfl
    rw [List.foldlM_cons, first]
    refine (ih _).trans (congrArg Except.ok (List.map_congr_left fun i _ => ?_))
    by_cases same : i = s.slot buckets v
    · simp [raise, same, Nat.add_assoc, Nat.add_comm 1]
    · simp [same, Ne.symm same]

theorem withHistogram_eq (values : List α) (buckets : Nat) :
    withHistogram values buckets = .ok (Spread.withHistogram values buckets) := by
  have some : 0 < max 1 buckets := Nat.lt_of_lt_of_le Nat.one_pos (Nat.le_max_left 1 buckets)
  have filled (i : Nat) : raise ((Spread.of values).bucket (max 1 buckets) [] i)
      (values.countP fun v => (Spread.of values).slot (max 1 buckets) v == i) =
        (Spread.of values).bucket (max 1 buckets) values i := by
    simp [raise, Spread.bucket]
  rw [withHistogram, foldlM_tally _ some, Spread.withHistogram]
  simp only [filled]
  rfl

theorem spread_eq (histograms : Bool) (values : List α) :
    spread histograms values = .ok (Overview.spread histograms values) := by
  cases histograms with
  | false => rfl
  | true => exact withHistogram_eq values Overview.buckets

theorem overview_eq (wellFormed : g.WellFormed) (histograms : Bool) :
    overview g histograms = reported (Overview.of g histograms) := by
  have columns : (List.range g.nodeDim).mapM (fun d => g.nodes.mapM fun n => lookup n.weights d) =
      .ok ((List.range g.nodeDim).map fun d => g.nodes.filterMap (·.weights[d]?)) :=
    mapM_eq_map fun d below => mapM_eq_filterMap fun node member =>
      exists_lookup (wellFormed.nodeWeights node member ▸ List.mem_range.mp below)
  have spreads : (((List.range g.nodeDim).map fun d => g.nodes.filterMap (·.weights[d]?)).mapM
      (spread histograms)) = .ok ((List.range g.nodeDim).map fun d =>
        Overview.spread histograms (g.nodes.filterMap (·.weights[d]?))) := by
    rw [mapM_eq_map fun column _ => spread_eq histograms column, List.map_map]
    rfl
  obtain ⟨costs, costed⟩ := wellFormed.exists_costs
  have cost : g.edgeCost (Weight.sumOf g.edgeDim (g.edges.map Edge.weights)) = .ok _ :=
    Weight.scalar_ok (Weight.length_sumOf (List.forall_mem_map.mpr fun e member =>
      (wellFormed.edges e member).weights))
  rw [overview, columns, Overview.of, costed, wellFormed.totalEdgeWeight_ok,
    wellFormed.totalNodeWeight_ok]
  change (reported (g.edgeCost _) >>= fun _ => List.mapM _ _ >>= _) = reported (g.edgeCost _ >>= _)
  rw [cost, spreads]
  simp only [spread_eq]
  rfl

end

/-! ### Merging -/

section
variable [Add α]

omit [Add α] in
def places (merged : List (Edge α)) : List (List NodeId × Nat) :=
  merged.mapIdx fun i d => (d.members, i)

omit [Add α] in
theorem exists_mem_places {merged : List (Edge α)} {d : Edge α} (member : d ∈ merged) :
    ∃ i, (d.members, i) ∈ places merged := by
  obtain ⟨i, read⟩ := List.mem_iff_getElem?.mp member
  refine ⟨i, List.mem_of_getElem? (i := i) ?_⟩
  rw [places, List.getElem?_mapIdx, read]
  rfl

theorem absorb_fresh {merged : List (Edge α)} (fresh : ∀ d ∈ merged, e.members ≠ d.members) :
    Hypergraph.absorb e merged = .ok (merged ++ [e]) := by
  induction merged with
  | nil => rfl
  | cons d merged ih =>
    obtain ⟨other, others⟩ := List.forall_mem_cons.mp fresh
    rw [Hypergraph.absorb, if_neg (Ne.symm other), ih others]
    rfl

theorem absorb_found {before after : List (Edge α)} {held : Edge α}
    (first : ∀ d ∈ before, e.members ≠ d.members) (same : held.members = e.members) :
    Hypergraph.absorb e (before ++ held :: after) =
      (fun w => before ++ { held with weights := w } :: after) <$>
        Weight.add held.weights e.weights := by
  induction before with
  | nil =>
    rw [List.nil_append, Hypergraph.absorb, if_pos same]
    cases Weight.add held.weights e.weights <;> rfl
  | cons d before ih =>
    obtain ⟨other, others⟩ := List.forall_mem_cons.mp first
    rw [List.cons_append, Hypergraph.absorb, if_neg (Ne.symm other), ih others]
    cases Weight.add held.weights e.weights <;> rfl

theorem absorb_eq (merged : List (Edge α)) (e : Edge α) : absorb (places merged, merged) e =
    reported ((fun next => (places next, next)) <$> Hypergraph.absorb e merged) := by
  cases found : (places merged).lookup e.members with
  | none =>
    have fresh : ∀ d ∈ merged, e.members ≠ d.members := by
      intro d member
      obtain ⟨i, listed⟩ := exists_mem_places member
      simpa using List.lookup_eq_none_iff.mp found _ listed
    rw [absorb_fresh fresh, absorb, found]
    change Except.ok (places merged ++ [_], _) = Except.ok (places (merged ++ [e]), _)
    rw [places, places, List.mapIdx_concat]
  | some slot =>
    -- the entry that is found is the place of the edge that holds the members
    obtain ⟨left, right, split, first⟩ := List.lookup_eq_some_iff.mp found
    obtain ⟨before, rest, rfl, rfl, others⟩ := List.mapIdx_eq_append_iff.mp split
    obtain ⟨held, after, rfl, entry, -⟩ := List.mapIdx_eq_cons_iff.mp others
    obtain ⟨same, rfl⟩ := Prod.mk.inj entry
    have earlier : ∀ d ∈ before, e.members ≠ d.members := by
      intro d member
      obtain ⟨i, listed⟩ := exists_mem_places member
      simpa using first _ listed
    have read : (before ++ held :: after)[0 + before.length]? = some held := by simp
    have replaced (w : List α) : (before ++ held :: after).set (0 + before.length)
        { held with weights := w } = before ++ { held with weights := w } :: after := by simp
    have kept (w : List α) : places (before ++ { held with weights := w } :: after) =
        places (before ++ held :: after) := by
      simp only [places, List.mapIdx_append, List.mapIdx_cons]
    rw [absorb_found earlier same, absorb, found]
    change (lookup (before ++ held :: after) (0 + before.length) >>= _) = _
    rw [lookup_ok.mpr read]
    change (reported (Weight.add held.weights e.weights) >>= fun w =>
      pure (places (before ++ held :: after), List.set _ _ { held with weights := w })) = _
    cases Weight.add held.weights e.weights with
    | error fault => rfl
    | ok w =>
      change Except.ok (_, (before ++ held :: after).set (0 + before.length) _) =
        Except.ok (places _, _)
      rw [replaced]
      exact congrArg (Except.ok <| Prod.mk · _) (kept w).symm

theorem foldlM_absorb (edges merged : List (Edge α)) :
    edges.foldlM absorb (places merged, merged) = reported ((fun next => (places next, next)) <$>
      edges.foldlM (fun merged e => Hypergraph.absorb e merged) merged) := by
  induction edges generalizing merged with
  | nil => rfl
  | cons e edges ih =>
    rw [List.foldlM_cons, List.foldlM_cons, absorb_eq]
    cases Hypergraph.absorb e merged with
    | error fault => rfl
    | ok next => exact ih next

theorem compressed_eq (g : Hypergraph α) : compressed g = reported g.compressed := by
  have merging := foldlM_absorb g.edges []
  rw [compressed, Hypergraph.compressed, mergeParallel]
  change (g.edges.foldlM absorb (places ([] : List (Edge α)), []) >>= _) = _
  rw [merging]
  cases g.edges.foldlM (fun merged e => Hypergraph.absorb e merged) [] <;> rfl

end
end Strict

/-! ### All queries -/

section
variable {α : Type} [Zero α] [Neg α] [Add α] [Sub α] [Mul α] [Div α] [NatCast α]
  [LE α] [DecidableLE α] [LT α] [DecidableLT α] [Gauge α]

open Strict (reported)

/-- Queries that find whatever they look up. The blocks of a partition have to leave room for their
number in a machine word. -/
structure Lookups (g : Hypergraph α) : Prop where
  cut : ∀ p, Strict.cut g p = reported (g.cut p)
  cutAt : ∀ p n, Strict.cutAt g p n = reported (g.cutAt p n)
  isCutEdge : ∀ e p, Strict.isCutEdge g e p = reported (g.isCutEdge e p)
  blockWeights : ∀ p, (∀ b, some b ∈ p → b < 2 ^ 64 - 1) →
    Strict.blockWeights g p = reported (g.blockWeights p)
  blockCuts : ∀ p, (∀ b, some b ∈ p → b < 2 ^ 64 - 1) →
    Strict.blockCuts g p = reported (g.blockCuts p)
  blockImbalance : ∀ p, (∀ b, some b ∈ p → b < 2 ^ 64 - 1) →
    Strict.blockImbalance g p = reported (g.blockImbalance p)
  memberWeight : ∀ e, Strict.memberWeight g e = reported (g.memberWeight e)
  hopLayers : ∀ seeds bound, Strict.hopLayers g seeds bound = reported (g.hopLayers seeds bound)
  overview : ∀ histograms, Strict.overview g histograms = reported (Overview.of g histograms)
  compressed : Strict.compressed g = reported g.compressed

theorem WellFormed.lookups {g : Hypergraph α} (wellFormed : g.WellFormed) : g.Lookups where
  cut := Strict.cut_eq wellFormed
  cutAt := Strict.cutAt_eq wellFormed
  isCutEdge := Strict.isCutEdge_eq wellFormed
  blockWeights _ := Strict.blockWeights_eq
  blockCuts _ := Strict.blockCuts_eq wellFormed
  blockImbalance _ := Strict.blockImbalance_eq
  memberWeight := Strict.memberWeight_eq wellFormed
  hopLayers := Strict.hopLayers_eq wellFormed
  overview := Strict.overview_eq wellFormed
  compressed := Strict.compressed_eq g

/-- Whatever a program did before, a query fails for its arguments alone, and looks up nothing that
is not there. -/
theorem Reachable.queries_faults [One α] {g : Hypergraph α} (reached : g.Reachable) :
    g.QueryFaults ∧ g.Lookups :=
  ⟨reached.wellFormed.queryFaults, reached.wellFormed.lookups⟩

end

/-- A row of which two nodes have no block. -/
theorem queries_faults_line : (line Float).QueryFaults ∧ (line Float).Lookups ∧
    (line Float).blockWeights [some 1, none, none, some 0] = .error (.unassignedNode 1) ∧
    (line Float).hopLayers [3, 4, 5] 1 = .error (.unknownNode 4) := by
  obtain ⟨faults, lookups⟩ := Reachable.queries_faults (reachable_line (α := Float))
  refine ⟨faults, lookups, (faults.blockWeights _ _).mpr (.inr ⟨rfl, 1, rfl, ?_, rfl⟩),
    (faults.hopLayers _ _ _ (List.cons_ne_nil _ _)).mpr ⟨[3], 4, [5], rfl, ?_, ?_, rfl⟩⟩
  · decide
  · decide
  · decide

end Multilevel.Hypergraph
