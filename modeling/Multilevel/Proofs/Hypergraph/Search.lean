import Multilevel.Proofs.Hypergraph.Layers
import Multilevel.Proofs.Hypergraph.Strict

/-!
# The queue of a search

A search takes the nodes of one layer off its queue while it puts those of the next layer behind
them (`Between`). Where it comes to the end of a layer, its tables say of the next layer what they
said of this one. So the search fills the layers one by one, it finds whatever it looks up, and as
no node gets on the queue twice, it takes no more steps than there are nodes.
-/
namespace Multilevel.Hypergraph.Strict

variable {α : Type} {g : Hypergraph α} {count k bound steps : Nat} {n : NodeId}
  {visited : List Bool} {seen rest found nodes : List NodeId} {done : List (List NodeId)}
  {s : Search}

/-! ### Marks -/

/-- The table of visited nodes marks those that are listed as seen. -/
structure Marks (count : Nat) (visited : List Bool) (seen : List NodeId) : Prop where
  length : visited.length = count
  marked : ∀ n < count, visited[n]? = some (decide (n ∈ seen))

theorem marks_nil (count : Nat) : Marks count (List.replicate count false) [] :=
  ⟨List.length_replicate, fun n known => by simp [known]⟩

theorem Marks.set (marks : Marks count visited seen) (n : NodeId) :
    Marks count (visited.set n true) (seen ++ [n]) := by
  refine ⟨by rw [List.length_set, marks.length], fun m below => ?_⟩
  rw [List.getElem?_set, marks.length]
  by_cases same : n = m
  · simp [same, below]
  · simp [same, marks.marked m below, Ne.symm same]

theorem Marks.visit (marks : Marks count visited found) (known : n < count) :
    ∃ marked, visit (visited, found) n =
        .ok (marked, if n ∈ found then found else found ++ [n]) ∧
      Marks count marked (if n ∈ found then found else found ++ [n]) := by
  have read := lookup_ok.mpr (marks.marked n known)
  rw [Strict.visit, read]
  by_cases before : n ∈ found
  · refine ⟨visited, ?_, ?_⟩
    · simp only [before, decide_true]
      rfl
    · rwa [if_pos before]
  · refine ⟨visited.set n true, ?_, ?_⟩
    · simp only [before, decide_false, if_false]
      rfl
    · rw [if_neg before]
      exact marks.set n

theorem Marks.foldlM_visit (marks : Marks count visited found) (known : ∀ n ∈ nodes, n < count) :
    ∃ marked, nodes.foldlM Strict.visit (visited, found) = .ok (marked, fresh [] found nodes) ∧
      Marks count marked (fresh [] found nodes) := by
  induction nodes generalizing visited found with
  | nil => exact ⟨visited, rfl, marks⟩
  | cons n nodes ih =>
    obtain ⟨first, others⟩ := List.forall_mem_cons.mp known
    obtain ⟨next, step, kept⟩ := marks.visit first
    obtain ⟨marked, run, result⟩ := ih kept others
    have same : fresh [] found (n :: nodes) =
        fresh [] (if n ∈ found then found else found ++ [n]) nodes := by
      simp [fresh]
    refine ⟨marked, ?_, same ▸ result⟩
    rw [List.foldlM_cons, step, same]
    exact run

/-! ### Between two layers -/

/-- A search on its way through a layer: `rest` is still to be taken off the queue, and `found` has
been met of the next layer. The layers up to this one are `done`. -/
structure Between (count k : Nat) (seen rest found : List NodeId) (done : List (List NodeId))
    (s : Search) : Prop where
  marks : Marks count s.visited (seen ++ found)
  table : s.distance.length = count
  near : ∀ n ∈ rest, n ∈ seen ∧ s.distance[n]? = some k
  far : ∀ n ∈ found, s.distance[n]? = some (k + 1)
  queue : s.queue = rest ++ found
  /-- No layer is begun before a node is met that belongs on it. -/
  filled : s.layers = if found = [] then done else done ++ [found]
  depth : done.length = k + 1

theorem Between.leave (between : Between count k seen (n :: rest) found done s) :
    Between count k seen rest found done { s with queue := rest ++ found } where
  marks := between.marks
  table := between.table
  near m listed := between.near m (List.mem_cons_of_mem n listed)
  far := between.far
  queue := rfl
  filled := between.filled
  depth := between.depth

theorem Between.meet (between : Between count k seen rest found done s) (known : n < count) :
    ∃ next, meet (k + 1) s n = .ok next ∧
      Between count k seen rest (if n ∈ seen ∨ n ∈ found then found else found ++ [n]) done
        next := by
  have read := lookup_ok.mpr (between.marks.marked n known)
  simp only [List.mem_append] at read
  rw [Strict.meet, read]
  by_cases before : n ∈ seen ∨ n ∈ found
  · refine ⟨s, ?_, ?_⟩
    · simp only [before, decide_true]
      rfl
    · rwa [if_pos before]
  · obtain ⟨_, stored, -⟩ := exists_lookup (between.table ▸ known)
    have begun : (if s.layers.length ≤ k + 1 then s.layers ++ [[]] else s.layers) =
        done ++ [found] := by
      rw [between.filled]
      split
      · rename_i none
        rw [if_pos (Nat.le_of_eq between.depth), none]
      · rw [if_neg (by simp [between.depth])]
    have held : lookup (done ++ [found]) (k + 1) = .ok found :=
      lookup_ok.mpr (by simp [← between.depth])
    have put : (done ++ [found]).set (k + 1) (found ++ [n]) = done ++ [found ++ [n]] := by
      simp [← between.depth]
    refine ⟨⟨s.visited.set n true, s.distance.set n (k + 1), s.queue ++ [n],
      done ++ [found ++ [n]]⟩, ?_, ?_⟩
    · simp only [before, decide_false]
      rw [stored, begun]
      change (lookup (done ++ [found]) (k + 1) >>= _) = _
      rw [held]
      change Except.ok (Search.mk _ _ _ ((done ++ [found]).set (k + 1) (found ++ [n]))) = _
      rw [put]
    · rw [if_neg before]
      obtain ⟨fresh, new⟩ := not_or.mp before
      refine ⟨?_, ?_, ?_, ?_, ?_, ?_, between.depth⟩
      · rw [← List.append_assoc]
        exact between.marks.set n
      · rw [List.length_set, between.table]
      · intro m listed
        obtain ⟨met, stored⟩ := between.near m listed
        have other : n ≠ m := by
          rintro rfl
          exact fresh met
        exact ⟨met, by rw [List.getElem?_set_ne other, stored]⟩
      · intro m listed
        by_cases same : n = m
        · rw [← same, List.getElem?_set_self (between.table ▸ known)]
        · rw [List.getElem?_set_ne same]
          exact between.far m (by simpa [Ne.symm same] using listed)
      · rw [between.queue, List.append_assoc]
      · rw [if_neg (by simp)]

theorem Between.foldlM_meet (between : Between count k seen rest found done s)
    (known : ∀ n ∈ nodes, n < count) :
    ∃ next, nodes.foldlM (Strict.meet (k + 1)) s = .ok next ∧
      Between count k seen rest (fresh seen found nodes) done next := by
  induction nodes generalizing found s with
  | nil => exact ⟨s, rfl, between⟩
  | cons n nodes ih =>
    obtain ⟨first, others⟩ := List.forall_mem_cons.mp known
    obtain ⟨middle, step, kept⟩ := between.meet first
    obtain ⟨next, run, result⟩ := ih kept others
    refine ⟨next, ?_, result⟩
    rw [List.foldlM_cons, step]
    exact run

/-- At the end of a layer, what has been met is the layer to go through. -/
theorem Between.turn (between : Between count k seen [] found done s) (some : found ≠ []) :
    Between count (k + 1) (seen ++ found) found [] (done ++ [found]) s where
  marks := by
    rw [List.append_nil]
    exact between.marks
  table := between.table
  near n listed := ⟨List.mem_append_right seen listed, between.far n listed⟩
  far := nofun
  queue := by rw [between.queue, List.nil_append, List.append_nil]
  filled := by rw [between.filled, if_neg some, if_pos rfl]
  depth := by rw [List.length_append, between.depth, List.length_singleton]

/-! ### Steps -/

theorem explore_nil (ended : s.queue = []) : explore g bound steps s = .ok s.layers := by
  rw [explore.eq_def, ended]
  rfl

theorem Between.explore_near (wellFormed : g.WellFormed)
    (between : Between g.nodeCount k seen (n :: rest) found done s) (known : n < g.nodeCount)
    (inside : k < bound) (steps : Nat) : ∃ next,
      explore g bound (steps + 1) s = explore g bound steps next ∧
      Between g.nodeCount k seen rest (fresh seen found (g.adjacent n)) done next := by
  have reach : ∀ m ∈ g.adjacent n, m < g.nodeCount :=
    fun m member => (mem_adjacent.mp member).2.lt_nodeCount wellFormed
  have near : g.neighbors n = .ok (g.adjacent n) := by
    rw [wellFormed.neighbors_eq, if_pos known]
  have stored := lookup_ok.mpr (between.near n List.mem_cons_self).2
  obtain ⟨next, met, kept⟩ := between.leave.foldlM_meet reach
  refine ⟨next, ?_, kept⟩
  rw [explore.eq_def, between.queue, List.cons_append]
  dsimp only
  rw [stored, near]
  change (if bound < k + 1 then _ else (g.adjacent n).foldlM (Strict.meet (k + 1))
    { s with queue := rest ++ found } >>= _) = _
  rw [if_neg (Nat.not_lt.mpr inside), met]
  rfl

theorem Between.explore_far (between : Between g.nodeCount k seen (n :: rest) found done s)
    (beyond : bound ≤ k) : explore g bound (steps + 1) s =
      explore g bound steps { s with queue := rest ++ found } := by
  have stored := lookup_ok.mpr (between.near n List.mem_cons_self).2
  rw [explore.eq_def, between.queue, List.cons_append]
  dsimp only
  rw [stored]
  exact if_pos (Nat.lt_succ_of_le beyond)

/-! ### Layers -/

theorem Between.explore_layer (wellFormed : g.WellFormed)
    (between : Between g.nodeCount k seen rest found done s)
    (known : ∀ n ∈ rest, n < g.nodeCount) (inside : k < bound) (steps : Nat) :
    ∃ last next,
      rest.foldlM (fun found n => return fresh seen found (← g.neighbors n)) found = .ok last ∧
      explore g bound (steps + rest.length) s = explore g bound steps next ∧
      Between g.nodeCount k seen [] last done next := by
  induction rest generalizing found s with
  | nil => exact ⟨found, s, rfl, rfl, between⟩
  | cons n rest ih =>
    obtain ⟨first, others⟩ := List.forall_mem_cons.mp known
    obtain ⟨middle, step, kept⟩ :=
      between.explore_near wellFormed first inside (steps + rest.length)
    obtain ⟨last, next, rounds, run, result⟩ := ih kept others
    refine ⟨last, next, ?_, step.trans run, result⟩
    rw [List.foldlM_cons, wellFormed.neighbors_eq, if_pos first]
    exact rounds

theorem Between.explore_last (between : Between g.nodeCount k seen rest [] done s)
    (beyond : bound ≤ k) (enough : rest.length ≤ steps) : explore g bound steps s = .ok done := by
  induction rest generalizing s steps with
  | nil => rw [explore_nil between.queue, between.filled, if_pos rfl]
  | cons n rest ih =>
    obtain ⟨steps, rfl⟩ := Nat.exists_eq_add_of_le' (Nat.le_trans (Nat.succ_pos _) enough)
    rw [between.explore_far beyond]
    exact ih between.leave (Nat.le_of_succ_le_succ enough)

/-- From one layer on, a search fills the layers that there are. No node gets on the queue twice, so
there are steps enough. -/
theorem Between.explore_eq (wellFormed : g.WellFormed) {frontier : List NodeId}
    {before : List (List NodeId)} (more : Nat)
    (between : Between g.nodeCount k seen frontier [] (before ++ [frontier]) s)
    (once : seen.Nodup) (known : ∀ n ∈ seen, n < g.nodeCount)
    (enough : g.nodeCount + frontier.length ≤ steps + seen.length) :
    ∃ layers, g.layersFrom more seen frontier = .ok layers ∧
      explore g (k + more) steps s = .ok (before ++ layers) := by
  induction more generalizing k seen frontier before s steps with
  | zero =>
    have room := length_le_of_nodup once known
    exact ⟨[frontier], rfl, between.explore_last (Nat.le_refl _) (by omega)⟩
  | succ more ih =>
    have room := length_le_of_nodup once known
    obtain ⟨steps, rfl⟩ := Nat.exists_eq_add_of_le' (show frontier.length ≤ steps by omega)
    have inside : ∀ n ∈ frontier, n < g.nodeCount :=
      fun n listed => known n (between.near n listed).1
    have ahead := wellFormed.nextLayer_eq seen inside
    obtain ⟨last, next, rounds, run, kept⟩ := between.explore_layer wellFormed inside
      (show k < k + (more + 1) by omega) steps
    obtain rfl := Except.ok.inj (ahead.symm.trans rounds)
    by_cases none : g.upcoming seen frontier = []
    · refine ⟨[frontier], ?_, ?_⟩
      · rw [layersFrom, ahead, none]
        rfl
      · rw [run, explore_nil (kept.queue.trans none), kept.filled, if_pos none]
    · -- what is met next has not been seen, so it takes places that are still free
      have later : (seen ++ g.upcoming seen frontier).Nodup :=
        List.nodup_append.mpr ⟨once, nodup_eraseDups _, fun n before m listed same =>
          (mem_upcoming.mp listed).1 (same ▸ before)⟩
      have reach : ∀ n ∈ seen ++ g.upcoming seen frontier, n < g.nodeCount := fun n listed => by
        rcases List.mem_append.mp listed with before | listed
        · exact known n before
        · obtain ⟨-, a, -, -, linked⟩ := mem_upcoming.mp listed
          exact linked.lt_nodeCount wellFormed
      have room : g.nodeCount + (g.upcoming seen frontier).length ≤
          steps + (seen ++ g.upcoming seen frontier).length := by
        rw [List.length_append]
        omega
      obtain ⟨layers, searched, explored⟩ := ih (kept.turn none) later reach room
      refine ⟨frontier :: layers, ?_, ?_⟩
      · refine bind_ok.mpr ⟨_, ahead, ?_⟩
        rw [if_neg (by simpa using none), searched]
        rfl
      · rw [run, show k + (more + 1) = k + 1 + more by omega, explored, List.append_assoc]
        rfl

/-! ### The search -/

theorem exists_visited {seeds : List NodeId} (known : ∀ n ∈ seeds, n < g.nodeCount) : ∃ marked,
    seeds.foldlM (visitSeed g) (List.replicate g.nodeCount false, []) =
      .ok (marked, seeds.eraseDups) ∧ Marks g.nodeCount marked seeds.eraseDups := by
  obtain ⟨marked, visited, marks⟩ := (marks_nil g.nodeCount).foldlM_visit known
  rw [fresh_seeds] at visited marks
  refine ⟨marked, ?_, marks⟩
  rw [← visited]
  exact foldlM_congr fun state n member => if_neg (Nat.not_le.mpr (known n member))

theorem explore_seeds (wellFormed : g.WellFormed) {seeds : List NodeId} {marked : List Bool}
    (known : ∀ n ∈ seeds, n < g.nodeCount) (marks : Marks g.nodeCount marked seeds.eraseDups)
    (bound : Nat) : explore g bound g.nodeCount
      ⟨marked, List.replicate g.nodeCount 0, seeds.eraseDups, [seeds.eraseDups]⟩ =
        reported (g.layersFrom bound seeds.eraseDups seeds.eraseDups) := by
  have inside : ∀ n ∈ seeds.eraseDups, n < g.nodeCount :=
    fun n listed => known n (List.mem_eraseDups.mp listed)
  have start : Between g.nodeCount 0 seeds.eraseDups seeds.eraseDups [] ([] ++ [seeds.eraseDups])
      ⟨marked, List.replicate g.nodeCount 0, seeds.eraseDups, [seeds.eraseDups]⟩ :=
    { marks := by rwa [List.append_nil]
      table := List.length_replicate
      near n listed := ⟨listed, by simp [inside n listed]⟩
      far := nofun
      queue := (List.append_nil _).symm
      filled := rfl
      depth := rfl }
  obtain ⟨layers, searched, explored⟩ := start.explore_eq wellFormed bound
    (nodup_eraseDups seeds) inside (Nat.le_refl _)
  rw [Nat.zero_add, List.nil_append] at explored
  rw [explored, searched]
  rfl

theorem hopLayers_eq (wellFormed : g.WellFormed) (seeds : List NodeId) (bound : Nat) :
    hopLayers g seeds bound = reported (g.hopLayers seeds bound) := by
  by_cases seeded : seeds = []
  · subst seeded
    rfl
  rw [hopLayers, if_neg (by simpa using seeded), Hypergraph.hopLayers_eq seeded]
  cases found : seeds.find? (g.nodeCount ≤ ·) with
  | none =>
    have known : ∀ n ∈ seeds, n < g.nodeCount := fun n member => by
      simpa using List.find?_eq_none.mp found n member
    obtain ⟨marked, visited, marks⟩ := exists_visited known
    rw [visited]
    exact explore_seeds wellFormed known marks bound
  | some s =>
    -- the seeds before the first that is no node are visited, and then the search stops
    obtain ⟨unknown, before, after, rfl, first⟩ := List.find?_eq_some_iff_append.mp found
    have inside : ∀ n ∈ before, n < g.nodeCount := fun n member => by
      simpa using first n member
    obtain ⟨marked, visited, -⟩ := exists_visited inside
    have stops : (before ++ s :: after).foldlM (visitSeed g)
        (List.replicate g.nodeCount false, []) = .error (.fault (.unknownNode s)) := by
      rw [List.foldlM_append]
      exact bind_error.mpr (.inr ⟨_, visited,
        bind_error.mpr (.inl (if_pos (of_decide_eq_true unknown)))⟩)
    rw [stops]
    rfl

end Multilevel.Hypergraph.Strict
