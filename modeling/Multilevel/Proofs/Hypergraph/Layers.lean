import Multilevel.Proofs.Distinct
import Multilevel.Proofs.Hypergraph.Adjacency

/-!
# Hop layers

A hop leads from a node to another one that some hyperedge spans with it. The nodes that a layer
holds are those at the distance of its number: the fewest hops that lead to them from the seeds
(`hopLayers_ok`). One step of the search takes the nodes at one distance to those at the next
(`Front.step`).
-/
namespace Multilevel.Hypergraph

variable {α : Type} {g : Hypergraph α} {seeds others : List NodeId} {k : Nat} {n : NodeId}

/-! ### Distances -/

def Linked (g : Hypergraph α) (a b : NodeId) : Prop :=
  ∃ e ∈ g.edges, a ∈ e.members ∧ b ∈ e.members

/-- The nodes that some number of hops, or fewer, lead to. -/
inductive Within (g : Hypergraph α) (seeds : List NodeId) : Nat → NodeId → Prop
  | seed {k : Nat} {n : NodeId} (listed : n ∈ seeds) : Within g seeds k n
  | hop {k : Nat} {a b : NodeId} (reached : Within g seeds k a) (linked : g.Linked a b) :
    Within g seeds (k + 1) b

structure AtDistance (g : Hypergraph α) (seeds : List NodeId) (k : Nat) (n : NodeId) : Prop where
  within : g.Within seeds k n
  least : ∀ j < k, ¬ g.Within seeds j n

theorem Within.succ (within : g.Within seeds k n) : g.Within seeds (k + 1) n := by
  induction within with
  | seed listed => exact .seed listed
  | hop _ linked ih => exact .hop ih linked

theorem Within.mono {j : Nat} (within : g.Within seeds j n) (le : j ≤ k) : g.Within seeds k n := by
  induction le with
  | refl => exact within
  | step _ ih => exact ih.succ

theorem within_zero : g.Within seeds 0 n ↔ n ∈ seeds := by
  constructor
  · intro within
    cases within with
    | seed listed => exact listed
  · exact .seed

theorem within_succ :
    g.Within seeds (k + 1) n ↔ g.Within seeds k n ∨ ∃ a, g.Within seeds k a ∧ g.Linked a n := by
  constructor
  · intro within
    cases within with
    | seed listed => exact .inl (.seed listed)
    | hop reached linked => exact .inr ⟨_, reached, linked⟩
  · rintro (before | ⟨a, reached, linked⟩)
    · exact before.succ
    · exact .hop reached linked

theorem Linked.lt_nodeCount (wellFormed : g.WellFormed) {a b : NodeId} (linked : g.Linked a b) :
    b < g.nodeCount := by
  obtain ⟨e, present, -, spans⟩ := linked
  exact (wellFormed.edges e present).known b spans

theorem Within.lt_nodeCount (wellFormed : g.WellFormed) (known : ∀ s ∈ seeds, s < g.nodeCount)
    (within : g.Within seeds k n) : n < g.nodeCount := by
  cases within with
  | seed listed => exact known n listed
  | hop _ linked => exact linked.lt_nodeCount wellFormed

theorem Within.exists_atDistance (within : g.Within seeds k n) :
    ∃ j ≤ k, g.AtDistance seeds j n := by
  induction k with
  | zero => exact ⟨0, Nat.le_refl 0, within, nofun⟩
  | succ k ih =>
    by_cases before : g.Within seeds k n
    · obtain ⟨j, le, at_⟩ := ih before
      exact ⟨j, Nat.le_succ_of_le le, at_⟩
    · exact ⟨k + 1, Nat.le_refl _, within, fun j lt earlier =>
        before (earlier.mono (Nat.le_of_lt_succ lt))⟩

theorem atDistance_zero : g.AtDistance seeds 0 n ↔ n ∈ seeds :=
  ⟨fun distance => within_zero.mp distance.within, fun listed => ⟨.seed listed, nofun⟩⟩

theorem atDistance_succ : g.AtDistance seeds (k + 1) n ↔
    ¬ g.Within seeds k n ∧ ∃ a, g.AtDistance seeds k a ∧ g.Linked a n := by
  constructor
  · intro ⟨within, least⟩
    have new : ¬ g.Within seeds k n := least k (Nat.lt_succ_self k)
    obtain ⟨a, reached, linked⟩ := (within_succ.mp within).resolve_left new
    -- a shorter way to the node before would make a shorter one to this node
    refine ⟨new, a, ⟨reached, fun j lt earlier => new ?_⟩, linked⟩
    exact (Within.hop earlier linked).mono lt
  · intro ⟨new, a, distance, linked⟩
    exact ⟨.hop distance.within linked, fun j lt earlier =>
      new (earlier.mono (Nat.le_of_lt_succ lt))⟩

/-! ### Neighbours -/

def adjacent (g : Hypergraph α) (n : NodeId) : List NodeId :=
  Ordered.ofList (((g.edges.filter (n ∈ ·.members)).flatMap Edge.members).filter (· ≠ n))

theorem mem_adjacent {a b : NodeId} : b ∈ g.adjacent a ↔ b ≠ a ∧ g.Linked a b := by
  simp only [adjacent, Ordered.mem_ofList, List.mem_filter, List.mem_flatMap, decide_eq_true_eq,
    Linked, and_assoc]
  exact and_comm

theorem WellFormed.neighbors_eq (wellFormed : g.WellFormed) (n : NodeId) :
    g.neighbors n =
      if n < g.nodeCount then .ok (g.adjacent n) else .error (.unknownNode n) :=
  wellFormed.spanning_eq (fun edges => pure
    (Ordered.ofList ((edges.flatMap Edge.members).filter (· ≠ n)))) n

theorem WellFormed.mem_neighbors (wellFormed : g.WellFormed) {a b : NodeId} :
    (∃ near, g.neighbors a = .ok near ∧ b ∈ near) ↔ b ≠ a ∧ g.Linked a b := by
  rw [wellFormed.neighbors_eq, ← mem_adjacent]
  constructor
  · rintro ⟨near, listed, member⟩
    split at listed
    · obtain rfl := Except.ok.inj listed
      exact member
    · cases listed
  · intro member
    obtain ⟨e, present, spans, -⟩ := (mem_adjacent.mp member).2
    exact ⟨_, if_pos ((wellFormed.edges e present).known a spans), member⟩

theorem WellFormed.connected_ok (wellFormed : g.WellFormed) {a b : NodeId} {joined : Bool} :
    g.connected a b = .ok joined ↔
      (a < g.nodeCount ∧ b < g.nodeCount) ∧ (joined = true ↔ g.Linked a b) := by
  have found : (g.edges.filter (a ∈ ·.members)).any (b ∈ ·.members) = true ↔ g.Linked a b := by
    simp only [List.any_eq_true, List.mem_filter, decide_eq_true_eq, and_assoc, Linked]
  rw [wellFormed.connected_eq, ← found]
  split <;> rename_i right
  · split <;> rename_i left
    · rw [Except.ok.injEq, and_iff_right ⟨left, right⟩, Bool.eq_iff_iff]
      exact iff_comm
    · exact ⟨nofun, fun known => absurd known.1.1 left⟩
  · exact ⟨nofun, fun known => absurd known.1.2 right⟩

theorem WellFormed.connected_true (wellFormed : g.WellFormed) {a b : NodeId} :
    g.connected a b = .ok true ↔ g.Linked a b := by
  rw [wellFormed.connected_ok, eq_self_iff_true, true_iff, and_iff_right_iff_imp]
  rintro ⟨e, present, first, second⟩
  have known := (wellFormed.edges e present).known
  exact ⟨known a first, known b second⟩

theorem WellFormed.exists_connected (wellFormed : g.WellFormed) {a b : NodeId}
    (left : a < g.nodeCount) (right : b < g.nodeCount) :
    ∃ joined, g.connected a b = .ok joined ∧ (joined = true ↔ g.Linked a b) := by
  have called := wellFormed.connected_eq a b
  rw [if_pos right, if_pos left] at called
  exact ⟨_, called, (wellFormed.connected_ok.mp called).2⟩

/-! ### One layer -/

theorem fresh_eq (seen candidates : List NodeId) :
    fresh seen [] candidates = (candidates.filter (· ∉ seen)).eraseDups := by
  have collected := foldl_collect (fun a => decide (a ∈ seen)) candidates
  simpa only [fresh, decide_eq_true_eq, decide_not] using collected

def upcoming (g : Hypergraph α) (seen frontier : List NodeId) : List NodeId :=
  ((frontier.flatMap g.adjacent).filter (· ∉ seen)).eraseDups

theorem mem_upcoming {seen frontier : List NodeId} : n ∈ g.upcoming seen frontier ↔
    n ∉ seen ∧ ∃ a ∈ frontier, n ≠ a ∧ g.Linked a n := by
  simp only [upcoming, List.mem_eraseDups, List.mem_filter, List.mem_flatMap, mem_adjacent,
    decide_eq_true_eq]
  exact and_comm

theorem WellFormed.nextLayer_eq (wellFormed : g.WellFormed) (seen : List NodeId)
    {frontier : List NodeId} (known : ∀ a ∈ frontier, a < g.nodeCount) :
    g.nextLayer seen frontier = .ok (g.upcoming seen frontier) := by
  have rounds : g.nextLayer seen frontier = .ok
      (frontier.foldl (fun found a => fresh seen found (g.adjacent a)) []) := by
    refine foldlM_eq_foldl (fun _ => True) (fun found a member _ => ⟨?_, trivial⟩) trivial
    rw [wellFormed.neighbors_eq, if_pos (known a member)]
    rfl
  rw [rounds, upcoming, ← fresh_eq]
  exact congrArg Except.ok List.foldl_flatMap.symm

/-! ### The search -/

/-- What the search knows when it comes to a distance: the nodes within it, and those at it. -/
structure Front (g : Hypergraph α) (seeds : List NodeId) (k : Nat) (seen frontier : List NodeId) :
    Prop where
  seen : ∀ n, n ∈ seen ↔ g.Within seeds k n
  frontier : ∀ n, n ∈ frontier ↔ g.AtDistance seeds k n

theorem front_start (g : Hypergraph α) (same : ∀ n, n ∈ others ↔ n ∈ seeds) :
    g.Front seeds 0 others others :=
  ⟨fun n => (same n).trans within_zero.symm, fun n => (same n).trans atDistance_zero.symm⟩

theorem Front.step {seen frontier : List NodeId} (front : g.Front seeds k seen frontier) :
    g.Front seeds (k + 1) (seen ++ g.upcoming seen frontier) (g.upcoming seen frontier) := by
  have next (n : NodeId) : n ∈ g.upcoming seen frontier ↔ g.AtDistance seeds (k + 1) n := by
    rw [mem_upcoming, atDistance_succ, front.seen]
    refine and_congr_right fun new => exists_congr fun a => ?_
    rw [front.frontier]
    refine and_congr_right fun distance => and_iff_right ?_
    rintro rfl
    exact new distance.within
  refine ⟨fun n => ?_, next⟩
  rw [List.mem_append, front.seen, next]
  constructor
  · rintro (before | distance)
    · exact before.succ
    · exact distance.within
  · intro within
    by_cases before : g.Within seeds k n
    · exact .inl before
    · exact .inr ⟨within, fun j lt earlier => before (earlier.mono (Nat.le_of_lt_succ lt))⟩

def OnLayer (layers : List (List NodeId)) (k : Nat) (n : NodeId) : Prop :=
  ∃ layer, layers[k]? = some layer ∧ n ∈ layer

theorem onLayer_zero {layer : List NodeId} {layers : List (List NodeId)} :
    OnLayer (layer :: layers) 0 n ↔ n ∈ layer := by
  simp [OnLayer]

theorem onLayer_succ {layer : List NodeId} {layers : List (List NodeId)} :
    OnLayer (layer :: layers) (k + 1) n ↔ OnLayer layers k n := by
  simp [OnLayer]

theorem atDistance_none {j : Nat} (none : ∀ n, ¬ g.AtDistance seeds k n) (beyond : k ≤ j) :
    ¬ g.AtDistance seeds j n := by
  induction beyond generalizing n with
  | refl => exact none n
  | step _ ih =>
    intro distance
    obtain ⟨-, a, before, -⟩ := atDistance_succ.mp distance
    exact ih before

/-- A frontier is all there is to the layers from it on, where nothing lies farther away. -/
theorem Front.onLayer_singleton {seen frontier : List NodeId}
    (front : g.Front seeds k seen frontier) {steps : Nat}
    (ends : ∀ j n, 0 < j → j ≤ steps → ¬ g.AtDistance seeds (k + j) n) (j : Nat) (n : NodeId) :
    OnLayer [frontier] j n ↔ j ≤ steps ∧ g.AtDistance seeds (k + j) n := by
  cases j with
  | zero => simpa only [onLayer_zero, Nat.add_zero, Nat.zero_le, true_and] using front.frontier n
  | succ j =>
    rw [onLayer_succ]
    constructor
    · rintro ⟨layer, read, -⟩
      cases read
    · intro ⟨bound, distance⟩
      exact absurd distance (ends (j + 1) n (Nat.succ_pos j) bound)

theorem Front.layersFrom_ok (wellFormed : g.WellFormed) (known : ∀ s ∈ seeds, s < g.nodeCount)
    {seen frontier : List NodeId} (front : g.Front seeds k seen frontier) (steps : Nat) :
    ∃ layers, g.layersFrom steps seen frontier = .ok layers ∧
      ∀ j n, OnLayer layers j n ↔ j ≤ steps ∧ g.AtDistance seeds (k + j) n := by
  induction steps generalizing k seen frontier with
  | zero => exact ⟨[frontier], rfl, front.onLayer_singleton fun j n positive bound => by omega⟩
  | succ steps ih =>
    have inside : ∀ a ∈ frontier, a < g.nodeCount := fun a member =>
      ((front.frontier a).mp member).within.lt_nodeCount wellFormed known
    have ahead := wellFormed.nextLayer_eq seen inside
    have step := front.step
    by_cases last : g.upcoming seen frontier = []
    · -- the search stops early, and nothing lies farther away
      have none (n : NodeId) : ¬ g.AtDistance seeds (k + 1) n := by
        rw [← step.frontier, last]
        exact List.not_mem_nil
      refine ⟨[frontier], ?_, front.onLayer_singleton fun j n positive _ => ?_⟩
      · rw [layersFrom, ahead, last]
        rfl
      · exact atDistance_none none (by omega)
    · obtain ⟨layers, searched, laid⟩ := ih step
      refine ⟨frontier :: layers, ?_, fun j n => ?_⟩
      · refine bind_ok.mpr ⟨_, ahead, ?_⟩
        rw [if_neg (by simpa using last), searched]
        rfl
      · cases j with
        | zero =>
          simpa only [onLayer_zero, Nat.add_zero, Nat.zero_le, true_and] using front.frontier n
        | succ j =>
          rw [onLayer_succ, laid, Nat.add_le_add_iff_right, Nat.add_right_comm k 1 j, Nat.add_assoc]

theorem fresh_seeds (seeds : List NodeId) : fresh [] [] seeds = seeds.eraseDups := by
  simp only [fresh_eq, List.not_mem_nil, not_false_eq_true, decide_true, List.filter_true]

theorem hopLayers_eq (seeded : seeds ≠ []) (bound : Nat) :
    g.hopLayers seeds bound = match seeds.find? (g.nodeCount ≤ ·) with
      | some stranger => .error (.unknownNode stranger)
      | none => g.layersFrom bound seeds.eraseDups seeds.eraseDups := by
  rw [hopLayers, fresh_seeds, if_neg (by simpa using seeded)]
  rfl

theorem hopLayers_of_known (seeded : seeds ≠ []) (known : ∀ s ∈ seeds, s < g.nodeCount)
    (bound : Nat) :
    g.hopLayers seeds bound = g.layersFrom bound seeds.eraseDups seeds.eraseDups := by
  have none : seeds.find? (g.nodeCount ≤ ·) = none :=
    List.find?_eq_none.mpr fun s listed => by simpa using known s listed
  rw [hopLayers_eq seeded, none]

/-- Layer by layer, the search lists the nodes at each distance up to the bound. -/
theorem WellFormed.hopLayers_ok (wellFormed : g.WellFormed) (seeded : seeds ≠ [])
    (known : ∀ s ∈ seeds, s < g.nodeCount) (bound : Nat) :
    ∃ layers, g.hopLayers seeds bound = .ok layers ∧
      ∀ j n, OnLayer layers j n ↔ j ≤ bound ∧ g.AtDistance seeds j n := by
  have start : g.Front seeds 0 seeds.eraseDups seeds.eraseDups :=
    front_start g fun _ => List.mem_eraseDups
  rw [hopLayers_of_known seeded known]
  simpa only [Nat.zero_add] using start.layersFrom_ok wellFormed known bound

end Multilevel.Hypergraph
