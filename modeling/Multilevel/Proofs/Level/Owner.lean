import Multilevel.Level.Transfer

/-!
# Owners

The node of a child that stands for a parent node is the owner of that node. Where no parent node
stands below two children, placing nodes and spreading values is looking up owners:
`getElem?_spread` says so for every list of values.
-/
namespace Multilevel.Level

variable {β : Type}

/-! ### Overwriting -/

def overwrite (entries : List (Nat × β)) (target : List β) : List β :=
  entries.foldl (fun t e => t.set e.1 e.2) target

theorem length_overwrite (entries : List (Nat × β)) (target : List β) :
    (overwrite entries target).length = target.length := by
  induction entries generalizing target with
  | nil => rfl
  | cons e entries ih => exact (ih _).trans List.length_set

theorem getElem?_overwrite_of_notMem {entries : List (Nat × β)} {target : List β} {n : Nat}
    (absent : n ∉ entries.map Prod.fst) : (overwrite entries target)[n]? = target[n]? := by
  induction entries generalizing target with
  | nil => rfl
  | cons e entries ih =>
    simp only [List.map_cons, List.mem_cons, not_or] at absent
    exact (ih absent.2).trans (List.getElem?_set_ne (Ne.symm absent.1))

theorem mem_of_getElem?_overwrite {entries : List (Nat × β)} {target : List β} {n : Nat}
    {v : β} (read : (overwrite entries target)[n]? = some v) :
    (n, v) ∈ entries ∨ target[n]? = some v := by
  induction entries generalizing target with
  | nil => exact .inr read
  | cons e entries ih =>
    rcases ih read with later | before
    · exact .inl (List.mem_cons_of_mem _ later)
    · by_cases same : e.1 = n
      · subst same
        have bound := (List.getElem?_eq_some_iff.mp before).1
        rw [List.length_set] at bound
        rw [List.getElem?_set_self bound] at before
        obtain rfl := Option.some.inj before
        exact .inl List.mem_cons_self
      · rw [List.getElem?_set_ne same] at before
        exact .inr before

theorem getElem?_overwrite_of_mem {entries : List (Nat × β)} {target : List β} {n : Nat} {v : β}
    (once : (entries.map Prod.fst).Nodup) (member : (n, v) ∈ entries) (bound : n < target.length) :
    (overwrite entries target)[n]? = some v := by
  induction entries generalizing target with
  | nil => cases member
  | cons e entries ih =>
    obtain ⟨fresh, once⟩ := List.nodup_cons.mp once
    rcases List.mem_cons.mp member with rfl | later
    · exact (getElem?_overwrite_of_notMem fresh).trans (List.getElem?_set_self bound)
    · exact ih once later (by rw [List.length_set]; exact bound)

/-! ### Owners -/

def owner (origins : List Origin) (n : NodeId) : Option NodeId :=
  origins.findIdx? fun o => decide (n ∈ o.parents)

theorem owner_eq_none {origins : List Origin} {n : NodeId} :
    owner origins n = none ↔ n ∉ origins.flatMap Origin.parents := by
  simp [owner, List.findIdx?_eq_none_iff]

theorem mem_of_owner {origins : List Origin} {n i : NodeId} (h : owner origins n = some i) :
    ∃ o, origins[i]? = some o ∧ n ∈ o.parents := by
  obtain ⟨bound, found, -⟩ := List.findIdx?_eq_some_iff_getElem.mp h
  exact ⟨origins[i], List.getElem?_eq_getElem bound, of_decide_eq_true found⟩

theorem lt_of_owner {origins : List Origin} {n i : NodeId} (h : owner origins n = some i) :
    i < origins.length :=
  (List.findIdx?_eq_some_iff_getElem.mp h).1

theorem index_unique {origins : List Origin} (once : (origins.flatMap Origin.parents).Nodup)
    {i j : Nat} {o u : Origin} {n : NodeId} (left : origins[i]? = some o) (right : origins[j]? = some u)
    (first : n ∈ o.parents) (second : n ∈ u.parents) : i = j := by
  have apart := List.pairwise_iff_getElem.mp (List.pairwise_flatMap.mp once).2
  obtain ⟨hi, rfl⟩ := List.getElem?_eq_some_iff.mp left
  obtain ⟨hj, rfl⟩ := List.getElem?_eq_some_iff.mp right
  rcases Nat.lt_trichotomy i j with below | same | above
  · exact absurd rfl (apart i j hi hj below n first n second)
  · exact same
  · exact absurd rfl (apart j i hj hi above n second n first)

theorem owner_eq_some {origins : List Origin} (once : (origins.flatMap Origin.parents).Nodup)
    {n i : NodeId} : owner origins n = some i ↔ ∃ o, origins[i]? = some o ∧ n ∈ o.parents := by
  refine ⟨mem_of_owner, fun ⟨o, read, listed⟩ => ?_⟩
  cases h : owner origins n with
  | none =>
    have absent := owner_eq_none.mp h
    exact absurd (List.mem_flatMap.mpr ⟨o, List.mem_of_getElem? read, listed⟩) absent
  | some j =>
    obtain ⟨u, other, found⟩ := mem_of_owner h
    rw [index_unique once other read found listed]

/-! ### Parents -/

def parentsAt (origins : List Origin) (i : NodeId) : List NodeId :=
  (origins[i]?.map Origin.parents).getD []

theorem mem_parentsAt {origins : List Origin} {i n : NodeId} :
    n ∈ parentsAt origins i ↔ ∃ o, origins[i]? = some o ∧ n ∈ o.parents := by
  unfold parentsAt
  cases origins[i]? <;> simp

theorem mem_parentsAt_iff_owner {origins : List Origin}
    (once : (origins.flatMap Origin.parents).Nodup) {i n : NodeId} :
    n ∈ parentsAt origins i ↔ owner origins n = some i := by
  rw [mem_parentsAt, owner_eq_some once]

theorem nodup_parentsAt {origins : List Origin} (once : (origins.flatMap Origin.parents).Nodup)
    (i : NodeId) : (parentsAt origins i).Nodup := by
  unfold parentsAt
  cases read : origins[i]? with
  | none => exact List.nodup_nil
  | some o => exact (List.pairwise_flatMap.mp once).1 o (List.mem_of_getElem? read)

/-! ### Spreading -/

/-- The entries that spreading writes: for each listed parent the value of its child. -/
def assignments (origins : List Origin) (values : List β) : List (Nat × β) :=
  (origins.zip values).flatMap fun e => e.1.parents.map (·, e.2)

theorem spread_eq_overwrite (origins : List Origin) (values target : List β) :
    spread origins values target = overwrite (assignments origins values) target := by
  simp only [spread, overwrite, assignments, List.foldl_flatMap, List.foldl_map]

theorem map_fst_assignments {origins : List Origin} {values : List β}
    (lengths : origins.length = values.length) :
    (assignments origins values).map Prod.fst = origins.flatMap Origin.parents := by
  induction origins generalizing values with
  | nil => rfl
  | cons o origins ih =>
    cases values with
    | nil => cases lengths
    | cons v values =>
      have rest := ih (Nat.succ.inj lengths)
      simp only [assignments] at rest
      simp only [assignments, List.zip_cons_cons, List.flatMap_cons, List.map_append, rest,
        List.map_map, Function.comp_def, List.map_id']

theorem length_spread (origins : List Origin) (values target : List β) :
    (spread origins values target).length = target.length := by
  rw [spread_eq_overwrite, length_overwrite]

theorem spread_append {origins others : List Origin} {values more : List β}
    (lengths : origins.length = values.length) (target : List β) :
    spread (origins ++ others) (values ++ more) target =
      spread others more (spread origins values target) := by
  rw [spread, List.zip_append lengths, List.foldl_append]
  rfl

/-- After values are spread a parent node has the value of its owner, or the value it had. -/
theorem getElem?_spread {origins : List Origin} {values target : List β}
    (once : (origins.flatMap Origin.parents).Nodup) (lengths : origins.length = values.length)
    {n : NodeId} (bound : n < target.length) :
    (spread origins values target)[n]? = ((owner origins n).bind (values[·]?)).or target[n]? := by
  have keys := map_fst_assignments lengths
  rw [spread_eq_overwrite]
  cases h : owner origins n with
  | none =>
    have absent : n ∉ (assignments origins values).map Prod.fst := by
      rw [keys]
      exact owner_eq_none.mp h
    rw [getElem?_overwrite_of_notMem absent]
    rfl
  | some i =>
    obtain ⟨o, read, listed⟩ := mem_of_owner h
    have inside : i < values.length := by
      rw [← lengths]
      exact lt_of_owner h
    have paired : (origins.zip values)[i]? = some (o, values[i]) :=
      List.getElem?_zip_eq_some.mpr ⟨read, List.getElem?_eq_getElem inside⟩
    have member : (n, values[i]) ∈ assignments origins values :=
      List.mem_flatMap.mpr ⟨(o, values[i]), List.mem_of_getElem? paired,
        List.mem_map.mpr ⟨n, listed, rfl⟩⟩
    rw [getElem?_overwrite_of_mem (by rw [keys]; exact once) member bound, Option.bind_some,
      List.getElem?_eq_getElem inside]
    rfl

end Multilevel.Level
