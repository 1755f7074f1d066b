import Mathlib.Data.List.Nodup
import Multilevel.Proofs.Hypergraph.Reachable
import Multilevel.Proofs.Hypergraph.Search

/-!
# Layers by distance

The layers of a search are never empty and have no node in common. As a node is on the layer of its
distance, there are as many layers as there are distances within the bound. A larger bound only adds
layers at the end.
-/
namespace Multilevel.Hypergraph

variable {α : Type} {g : Hypergraph α} {seeds seen frontier : List NodeId}
  {layers : List (List NodeId)} {bound steps j k : Nat} {n : NodeId}

/-! ### Distances apart -/

theorem AtDistance.unique (first : g.AtDistance seeds j n) (second : g.AtDistance seeds k n) :
    j = k := by
  rcases Nat.lt_trichotomy j k with below | same | above
  · exact absurd first.within (second.least j below)
  · exact same
  · exact absurd second.within (first.least k above)

theorem onLayer_getElem (inside : k < layers.length) : OnLayer layers k n ↔ n ∈ layers[k] := by
  simp [OnLayer, List.getElem?_eq_getElem inside]

/-! ### What a layer is made of -/

theorem lt_of_mem_upcoming (wellFormed : g.WellFormed) (member : n ∈ g.upcoming seen frontier) :
    n < g.nodeCount := by
  obtain ⟨-, a, -, -, linked⟩ := mem_upcoming.mp member
  exact linked.lt_nodeCount wellFormed

/-- The search starts with its frontier, and goes on only with nodes to go on with. -/
theorem WellFormed.layersFrom_distinct (wellFormed : g.WellFormed)
    (known : ∀ a ∈ frontier, a < g.nodeCount) (some : frontier ≠ []) (once : frontier.Nodup)
    (searched : g.layersFrom steps seen frontier = .ok layers) :
    layers.head? = Option.some frontier ∧ ∀ layer ∈ layers, layer ≠ [] ∧ layer.Nodup := by
  induction steps generalizing seen frontier layers with
  | zero =>
    obtain rfl := pure_ok.mp searched
    exact ⟨rfl, by simp [some, once]⟩
  | succ steps ih =>
    rw [layersFrom, wellFormed.nextLayer_eq seen known] at searched
    obtain ⟨next, same, searched⟩ := bind_ok.mp searched
    obtain rfl := Except.ok.inj same
    split at searched
    · obtain rfl := pure_ok.mp searched
      exact ⟨rfl, by simp [some, once]⟩
    · rename_i more
      obtain ⟨rest, later, searched⟩ := bind_ok.mp searched
      obtain rfl := pure_ok.mp searched
      have others := ih (fun a member => lt_of_mem_upcoming wellFormed member)
        (by simpa using more) (nodup_eraseDups _) later
      exact ⟨rfl, List.forall_mem_cons.mpr ⟨⟨some, once⟩, others.2⟩⟩

/-! ### All layers -/

/-- The nodes within a distance of the seeds, each once and on the layer of its own distance. -/
structure Layered (g : Hypergraph α) (seeds : List NodeId) (bound : Nat)
    (layers : List (List NodeId)) : Prop where
  /-- The seeds themselves, in the order in which they are met. -/
  first : layers.head? = some seeds.eraseDups
  exact : ∀ k n, OnLayer layers k n ↔ k ≤ bound ∧ g.AtDistance seeds k n
  once : layers.flatten.Nodup
  nonempty : ∀ layer ∈ layers, layer ≠ []
  length : layers.length ≤ bound + 1
  /-- The layers end at the largest distance within the bound. -/
  depth : ∀ k, k < layers.length ↔ k ≤ bound ∧ ∃ n, g.AtDistance seeds k n

theorem lt_length_iff (exact : ∀ k n, OnLayer layers k n ↔ k ≤ bound ∧ g.AtDistance seeds k n)
    (nonempty : ∀ layer ∈ layers, layer ≠ []) :
    k < layers.length ↔ k ≤ bound ∧ ∃ n, g.AtDistance seeds k n := by
  constructor
  · intro inside
    obtain ⟨n, member⟩ := List.exists_mem_of_ne_nil _ (nonempty _ (List.getElem_mem inside))
    obtain ⟨within, distance⟩ := (exact k n).mp ((onLayer_getElem inside).mpr member)
    exact ⟨within, n, distance⟩
  · intro ⟨within, n, distance⟩
    obtain ⟨layer, read, -⟩ := (exact k n).mpr ⟨within, distance⟩
    exact (List.getElem?_eq_some_iff.mp read).1

theorem pairwise_disjoint (exact : ∀ k n, OnLayer layers k n ↔ k ≤ bound ∧ g.AtDistance seeds k n) :
    layers.Pairwise List.Disjoint := by
  refine List.pairwise_iff_getElem.mpr fun i j first second below n left right => ?_
  have near := (exact i n).mp ((onLayer_getElem first).mpr left)
  have far := (exact j n).mp ((onLayer_getElem second).mpr right)
  exact Nat.ne_of_lt below (near.2.unique far.2)

theorem WellFormed.layered (wellFormed : g.WellFormed) (seeded : seeds ≠ [])
    (known : ∀ s ∈ seeds, s < g.nodeCount) (bound : Nat) :
    ∃ layers, g.hopLayers seeds bound = .ok layers ∧ g.Layered seeds bound layers := by
  obtain ⟨layers, searched, exact⟩ := wellFormed.hopLayers_ok seeded known bound
  have search := (hopLayers_of_known seeded known bound).symm.trans searched
  obtain ⟨s, listed⟩ := List.exists_mem_of_ne_nil _ seeded
  obtain ⟨first, each⟩ := wellFormed.layersFrom_distinct
    (fun a member => known a (List.mem_eraseDups.mp member))
    (List.ne_nil_of_mem (List.mem_eraseDups.mpr listed)) (nodup_eraseDups seeds) search
  have depth (k : Nat) := lt_length_iff (k := k) exact fun layer member => (each layer member).1
  refine ⟨layers, searched, first, exact, ?_, fun layer member => (each layer member).1, ?_, depth⟩
  · exact List.nodup_flatten.mpr ⟨fun layer member => (each layer member).2, pairwise_disjoint exact⟩
  · refine Nat.le_of_not_lt fun beyond => ?_
    exact Nat.not_succ_le_self bound ((depth (bound + 1)).mp beyond).1

/-- From valid seeds the search, and so the one that goes through a queue, gives the nodes layer by
layer. Both fail for the first seed that is no node, however small the bound. -/
theorem Reachable.hopLayers_layered [One α] (reached : g.Reachable) (seeded : seeds ≠ [])
    (bound : Nat) :
    ((∀ s ∈ seeds, s < g.nodeCount) → ∃ layers, g.hopLayers seeds bound = .ok layers ∧
      Strict.hopLayers g seeds bound = .ok layers ∧ g.Layered seeds bound layers) ∧
    ((∃ s ∈ seeds, g.nodeCount ≤ s) → ∃ s, seeds.find? (g.nodeCount ≤ ·) = some s ∧
      g.hopLayers seeds bound = .error (.unknownNode s) ∧
      Strict.hopLayers g seeds bound = .error (.fault (.unknownNode s))) := by
  have wellFormed := reached.wellFormed
  constructor
  · intro known
    obtain ⟨layers, searched, layered⟩ := wellFormed.layered seeded known bound
    refine ⟨layers, searched, ?_, layered⟩
    rw [Strict.hopLayers_eq wellFormed, searched]
    rfl
  · intro ⟨s, listed, unknown⟩
    have present : (seeds.find? (g.nodeCount ≤ ·)).isSome :=
      List.find?_isSome.mpr ⟨s, listed, decide_eq_true unknown⟩
    obtain ⟨t, found⟩ := Option.isSome_iff_exists.mp present
    have failed : g.hopLayers seeds bound = .error (.unknownNode t) := by
      rw [hopLayers_eq seeded, found]
    refine ⟨t, found, failed, ?_⟩
    rw [Strict.hopLayers_eq wellFormed, failed]
    rfl

/-- A row searched from two of its nodes, one of which is listed twice, and from one that it does
not have. -/
theorem hopLayers_layered_line : (line Float).Layered [3, 1, 3] 7 [[3, 1], [2, 0]] ∧
    Strict.hopLayers (line Float) [3, 1, 3] 7 = .ok [[3, 1], [2, 0]] ∧
    (line Float).hopLayers [3, 9, 1] 0 = .error (.unknownNode 9) ∧
    Strict.hopLayers (line Float) [3, 9, 1] 0 = .error (.fault (.unknownNode 9)) := by
  obtain ⟨layers, searched, queued, layered⟩ := (Reachable.hopLayers_layered
    (reachable_line (α := Float)) (List.cons_ne_nil 3 [1, 3]) 7).1 (by decide)
  have run : (line Float).hopLayers [3, 1, 3] 7 = .ok [[3, 1], [2, 0]] := by decide +kernel
  obtain rfl := Except.ok.inj (run.symm.trans searched)
  obtain ⟨s, found, failed⟩ := (Reachable.hopLayers_layered
    (reachable_line (α := Float)) (List.cons_ne_nil 3 [9, 1]) 0).2 ⟨9, by decide⟩
  obtain rfl : 9 = s := Option.some.inj (Eq.trans (by decide) found)
  exact ⟨layered, queued, failed⟩

/-! ### Larger bounds -/

/-- A search that goes less far gives the first layers of one that goes farther. -/
theorem layersFrom_take {near far : Nat} (le : near ≤ far)
    (searched : g.layersFrom far seen frontier = .ok layers) :
    g.layersFrom near seen frontier = .ok (layers.take (near + 1)) := by
  induction near generalizing far seen frontier layers with
  | zero =>
    cases far with
    | zero =>
      obtain rfl := pure_ok.mp searched
      rfl
    | succ far =>
      obtain ⟨next, -, searched⟩ := bind_ok.mp searched
      split at searched
      · obtain rfl := pure_ok.mp searched
        rfl
      · obtain ⟨rest, -, searched⟩ := bind_ok.mp searched
        obtain rfl := pure_ok.mp searched
        rfl
  | succ near ih =>
    obtain ⟨far, rfl⟩ := Nat.exists_eq_add_of_le' (Nat.le_trans (Nat.succ_pos near) le)
    obtain ⟨next, ahead, searched⟩ := bind_ok.mp searched
    refine bind_ok.mpr ⟨next, ahead, ?_⟩
    split at searched
    · -- both searches stop where nothing new is met
      rename_i last
      obtain rfl := pure_ok.mp searched
      rw [if_pos last]
      rfl
    · rename_i more
      obtain ⟨rest, later, searched⟩ := bind_ok.mp searched
      obtain rfl := pure_ok.mp searched
      rw [if_neg more]
      exact bind_ok.mpr ⟨_, ih (Nat.le_of_succ_le_succ le) later, rfl⟩

/-- Layers only extend as the bound grows, in the search by layers and so in the one that goes
through a queue. -/
theorem Reachable.hopLayers_take [One α] (reached : g.Reachable)
    (known : ∀ s ∈ seeds, s < g.nodeCount) {near far : Nat} (le : near ≤ far) : ∃ layers,
      g.hopLayers seeds far = .ok layers ∧
      g.hopLayers seeds near = .ok (layers.take (near + 1)) ∧
      Strict.hopLayers g seeds far = .ok layers ∧
      Strict.hopLayers g seeds near = .ok (layers.take (near + 1)) := by
  have wellFormed := reached.wellFormed
  suffices ∃ layers, g.hopLayers seeds far = .ok layers ∧
      g.hopLayers seeds near = .ok (layers.take (near + 1)) by
    obtain ⟨layers, long, short⟩ := this
    refine ⟨layers, long, short, ?_, ?_⟩
    · rw [Strict.hopLayers_eq wellFormed, long]
      rfl
    · rw [Strict.hopLayers_eq wellFormed, short]
      rfl
  by_cases seeded : seeds = []
  · subst seeded
    exact ⟨[], rfl, rfl⟩
  · obtain ⟨layers, searched, -⟩ := wellFormed.hopLayers_ok seeded known far
    refine ⟨layers, searched, ?_⟩
    rw [hopLayers_of_known seeded known] at searched ⊢
    exact layersFrom_take le searched

/-- The row from one end: the search one step far stops before the layers that the longer one has. -/
theorem hopLayers_take_line :
    (line Float).hopLayers [3, 3] 1 = .ok (([[3], [2], [1], [0]] : List (List NodeId)).take 2) ∧
    Strict.hopLayers (line Float) [3, 3] 9 = .ok [[3], [2], [1], [0]] ∧
    Strict.hopLayers (line Float) [3, 3] 1 = .ok [[3], [2]] := by
  have known : ∀ s ∈ ([3, 3] : List NodeId), s < (line Float).nodeCount := by decide
  obtain ⟨layers, long, short, queued, stopped⟩ :=
    Reachable.hopLayers_take reachable_line known (show 1 ≤ 9 by decide)
  have run : (line Float).hopLayers [3, 3] 9 = .ok [[3], [2], [1], [0]] := by decide +kernel
  obtain rfl := Except.ok.inj (run.symm.trans long)
  exact ⟨short, queued, stopped⟩

end Multilevel.Hypergraph
