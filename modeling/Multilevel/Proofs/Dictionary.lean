import Multilevel.Dictionary
import Multilevel.Proofs.Results

namespace Multilevel.Dictionary

variable {ν : Type} {key other : String} {value : ν}

theorem get?_put_self (d : Dictionary String ν) : get? (put key value d) key = some value := by
  induction d with
  | nil => simp [put, get?]
  | cons e d ih =>
    obtain ⟨k, v⟩ := e
    rw [put]
    split
    · simp [get?]
    · split
      · rename_i above
        have different : (key == k) = false := by
          refine beq_eq_false_iff_ne.mpr fun same => ?_
          exact String.lt_irrefl k (same ▸ above)
        rw [get?, List.lookup_cons, different]
        exact ih
      · simp [get?]

theorem get?_put_of_ne (different : other ≠ key) (d : Dictionary String ν) :
    get? (put key value d) other = get? d other := by
  have apart : (other == key) = false := by simpa using different
  induction d with
  | nil => rw [put, get?, List.lookup_cons, apart]; rfl
  | cons e d ih =>
    obtain ⟨k, v⟩ := e
    rw [put]
    split
    · rw [get?, List.lookup_cons, apart]
      rfl
    · split
      · rw [get?, get?, List.lookup_cons, List.lookup_cons]
        cases other == k with
        | true => rfl
        | false => exact ih
      · rename_i below above
        have same : k = key := String.le_antisymm (String.not_lt.mp below) (String.not_lt.mp above)
        rw [get?, get?, List.lookup_cons, List.lookup_cons, same, apart]

theorem get?_ofList_cons {rest : List (String × ν)} (apart : ∀ e ∈ rest, key ≠ e.1) :
    get? (ofList ((key, value) :: rest)) key = some value := by
  have kept : ∀ (entries : List (String × ν)) (d : Dictionary String ν),
      (∀ e ∈ entries, key ≠ e.1) →
        get? (entries.foldl (fun d e => put e.1 e.2 d) d) key = get? d key := by
    intro entries
    induction entries with
    | nil => exact fun _ _ => rfl
    | cons e entries ih =>
      intro d others
      obtain ⟨first, others⟩ := List.forall_mem_cons.mp others
      exact (ih _ others).trans (get?_put_of_ne first d)
  exact (kept rest _ apart).trans (get?_put_self [])

end Multilevel.Dictionary
