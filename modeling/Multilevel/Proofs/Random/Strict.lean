import Multilevel.Random.Generate

/-!
# Draws from empty ranges

A number below zero cannot be drawn. Here graphs and clusterings are drawn with steps that stop if
they are asked for one. None of them ever is, so the strict runs are those of the plain definitions
(`graph_eq`, `clustering_eq`).
-/
namespace Multilevel.Random.Strict

variable {α β γ : Type}

abbrev Guarded := StateT Stream Option

def plain (d : Draw β) : Guarded β := fun s => some (d.run s)

def ranged (draw : Nat → Draw Nat) (bound : Nat) : Guarded Nat :=
  if bound = 0 then failure else plain (draw bound)

/-! ### Graphs -/

def weights [NatCast α] (dim : Nat) : Guarded (List α) :=
  (List.replicate dim ()).mapM fun _ => do
    return ((1 + (← ranged below32 maxWeight) : Nat) : α)

def edge [NatCast α] (nodes dim maxDegree : Nat) : Guarded (Edge α) := do
  -- as many degrees as there are from two up to the largest
  let degree := 2 + (← ranged below64 (maxDegree - 1))
  let members ← plain (choose nodes degree)
  return ⟨← weights dim, members⟩

def parts [NatCast α] (factors : Factors α) (nodes edges maxDegree : Nat) :
    Guarded (List (List α) × List (Edge α)) := do
  let weighed ← (List.replicate nodes ()).mapM fun _ => weights factors.node.length
  let top := max 2 (min maxDegree (max 2 nodes))
  let spanned ← (List.replicate edges ()).mapM fun _ => edge nodes factors.edge.length top
  return (weighed, spanned)

def graph [NatCast α] (factors : Factors α) (nodes edges maxDegree : Nat) (s : Stream) :
    Option (Except Fault (Hypergraph α × Stream)) :=
  if nodes < 2 ∧ 0 < edges then some (.error (.tooFewNodes nodes))
  else match factors.check with
    | .error fault => some (.error fault)
    | .ok _ => do
      let ((weighed, spanned), rest) ← (parts factors nodes edges maxDegree).run s
      return (·, rest) <$> Hypergraph.assemble factors weighed spanned

/-! ### Clusterings -/

def deal (count : Nat) (order : List NodeId) : Guarded Clustering := do
  let clusters ← order.zipIdx.foldlM
    (fun (clusters : Clustering) (n, i) => do
      let slot ← if i < count then pure i else ranged below64 count
      return clusters.modify slot (· ++ [n]))
    (List.replicate count [])
  return clusters.map (·.mergeSort (· ≤ ·))

def clustering (nodes count : Nat) (s : Stream) : Option (Except Fault (Clustering × Stream)) :=
  if count = 0 ∨ nodes < count then some (.error (.clusterCount count nodes))
  else (do deal count (← plain (shuffle (List.range nodes)))).run s >>= fun r => some (.ok r)

/-! ### Runs that do not stop -/

/-- A strict draw that gives what a plain one gives, and leaves the same stream behind. -/
def Follows (strict : Guarded β) (d : Draw β) : Prop := ∀ s, strict.run s = some (d.run s)

theorem follows_plain (d : Draw β) : Follows (plain d) d := fun _ => rfl

theorem follows_pure (b : β) : Follows (pure b) (pure b) := fun _ => rfl

theorem follows_ranged {draw : Nat → Draw Nat} {bound : Nat} (positive : 0 < bound) :
    Follows (ranged draw bound) (draw bound) := by
  rw [ranged, if_neg (Nat.ne_of_gt positive)]
  exact follows_plain _

theorem Follows.bind {strict : Guarded β} {d : Draw β} {f : β → Guarded γ} {g : β → Draw γ}
    (first : Follows strict d) (second : ∀ b, Follows (f b) (g b)) :
    Follows (strict >>= f) (d >>= g) := by
  intro s
  rw [StateT.run_bind, first s]
  exact second _ _

theorem follows_mapM {f : α → Guarded β} {g : α → Draw β} (each : ∀ a, Follows (f a) (g a))
    (xs : List α) : Follows (xs.mapM f) (xs.mapM g) := by
  induction xs with
  | nil => exact follows_pure []
  | cons x xs ih =>
    rw [List.mapM_cons, List.mapM_cons]
    exact (each x).bind fun y => ih.bind fun ys => follows_pure (y :: ys)

theorem follows_foldlM {f : β → α → Guarded β} {g : β → α → Draw β}
    (round : ∀ b a, Follows (f b a) (g b a)) (xs : List α) (start : β) :
    Follows (xs.foldlM f start) (xs.foldlM g start) := by
  induction xs generalizing start with
  | nil => exact follows_pure start
  | cons x xs ih =>
    rw [List.foldlM_cons, List.foldlM_cons]
    exact (round start x).bind ih

section
variable [NatCast α]

theorem follows_weights (dim : Nat) :
    Follows (weights dim : Guarded (List α)) (Random.weights dim) :=
  follows_mapM (fun _ => (follows_ranged (by decide)).bind fun _ => follows_pure _) _

theorem follows_edge {maxDegree : Nat} (nodes dim : Nat) (some : 2 ≤ maxDegree) :
    Follows (edge nodes dim maxDegree : Guarded (Edge α)) (Random.edge nodes dim maxDegree) :=
  (follows_ranged (Nat.sub_pos_of_lt some)).bind fun _ => (follows_plain _).bind fun _ =>
    (follows_weights dim).bind fun _ => follows_pure _

theorem follows_parts (factors : Factors α) (nodes edges maxDegree : Nat) :
    Follows (parts factors nodes edges maxDegree) (Random.parts factors nodes edges maxDegree) :=
  (follows_mapM (fun _ => follows_weights _) _).bind fun _ =>
    (follows_mapM (fun _ => follows_edge _ _ (Nat.le_max_left 2 _)) _).bind fun _ => follows_pure _

theorem graph_eq (factors : Factors α) (nodes edges maxDegree : Nat) (s : Stream) :
    graph factors nodes edges maxDegree s =
      some (Random.graph factors nodes edges maxDegree s) := by
  unfold graph Random.graph
  split
  · rfl
  · cases factors.check with
    | error => rfl
    | ok =>
      dsimp only
      rw [follows_parts factors nodes edges maxDegree s]
      rfl

end

theorem follows_deal {count : Nat} (positive : 0 < count) (order : List NodeId) :
    Follows (deal count order) (Random.deal count order) := by
  refine (follows_foldlM (fun clusters e => ?_) _ _).bind fun _ => follows_pure _
  dsimp only
  split
  · exact (follows_pure _).bind fun _ => follows_pure _
  · exact (follows_ranged positive).bind fun _ => follows_pure _

theorem clustering_eq (nodes count : Nat) (s : Stream) :
    clustering nodes count s = some (Random.clustering nodes count s) := by
  unfold clustering Random.clustering
  split
  · rfl
  · rename_i counts
    have positive : 0 < count := Nat.pos_of_ne_zero fun none => counts (.inl none)
    rw [((follows_plain _).bind fun order => follows_deal positive order) s]
    rfl

end Multilevel.Random.Strict
