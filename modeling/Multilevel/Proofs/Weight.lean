import Multilevel.Hypergraph.Cut
import Multilevel.Proofs.Results

/-!
# Sums of weight vectors

Vectors of one length always have a sum, slot by slot where they are made of slots (`sumOf_flatten`).
Vectors that are added to the entries of a list leave in each entry the sum of those that were added
there, in order (`foldlM_addAt`). Where the entries lie behind one another in one vector, adding to
the window of an entry is the same (`foldlM_addWithin`).
-/
namespace Multilevel.Weight

variable {α : Type} [Add α]

def addAll (start : List α) (vectors : List (List α)) : List α :=
  vectors.foldl (List.zipWith (· + ·)) start

theorem addAll_append (start : List α) (vectors others : List (List α)) :
    addAll start (vectors ++ others) = addAll (addAll start vectors) others :=
  List.foldl_append

theorem add_ok {target source : List α} (lengths : source.length = target.length) :
    add target source = .ok (List.zipWith (· + ·) target source) := by
  rw [add, combine, if_pos lengths.symm]

theorem length_of_add {target source sum : List α} (added : add target source = .ok sum) :
    sum.length = target.length := by
  unfold add combine at added
  split at added
  · rename_i lengths
    obtain rfl := Except.ok.inj added
    rw [List.length_zipWith, ← lengths, Nat.min_self]
  · cases added

theorem length_addAll {start : List α} {vectors : List (List α)}
    (lengths : ∀ v ∈ vectors, v.length = start.length) :
    (addAll start vectors).length = start.length := by
  induction vectors generalizing start with
  | nil => rfl
  | cons v vectors ih =>
    obtain ⟨first, others⟩ := List.forall_mem_cons.mp lengths
    have kept : (List.zipWith (· + ·) start v).length = start.length := by
      rw [List.length_zipWith, first, Nat.min_self]
    exact (ih (by rw [kept]; exact others)).trans kept

theorem foldlM_add {start : List α} {vectors : List (List α)}
    (lengths : ∀ v ∈ vectors, v.length = start.length) :
    vectors.foldlM add start = .ok (addAll start vectors) := by
  apply foldlM_eq_foldl fun t => t.length = start.length
  · intro t v member same
    have fits : v.length = t.length := (lengths v member).trans same.symm
    exact ⟨add_ok fits, by rw [List.length_zipWith, fits, Nat.min_self, same]⟩
  · rfl

variable [Zero α]

def sumOf (dim : Nat) (vectors : List (List α)) : List α := addAll (zeros dim) vectors

omit [Add α] in
theorem length_zeros (dim : Nat) : (zeros dim : List α).length = dim := List.length_replicate

theorem length_sumOf {dim : Nat} {vectors : List (List α)}
    (lengths : ∀ v ∈ vectors, v.length = dim) : (sumOf dim vectors).length = dim :=
  (length_addAll (by rw [length_zeros]; exact lengths)).trans (length_zeros dim)

theorem sum_ok {dim : Nat} {vectors : List (List α)} (lengths : ∀ v ∈ vectors, v.length = dim) :
    sum dim vectors = .ok (sumOf dim vectors) :=
  foldlM_add (by rw [length_zeros]; exact lengths)

theorem scalar_ok [Neg α] [Mul α] {weights factors : List α}
    (lengths : weights.length = factors.length) :
    scalar weights factors = .ok (total (List.zipWith (· * ·) weights factors)) := by
  rw [scalar, combine, if_pos lengths]
  rfl

/-! ### Slots -/

section
variable {β γ : Type} {keys : List γ}

omit [Zero α] in
theorem zipWith_flatten {f g : γ → List α} (widths : ∀ k ∈ keys, (f k).length = (g k).length) :
    List.zipWith (· + ·) (keys.map f).flatten (keys.map g).flatten =
      (keys.map fun k => List.zipWith (· + ·) (f k) (g k)).flatten := by
  induction keys with
  | nil => rfl
  | cons k keys ih =>
    obtain ⟨first, others⟩ := List.forall_mem_cons.mp widths
    simp only [List.map_cons, List.flatten_cons]
    rw [List.zipWith_append first, ih others]

omit [Zero α] in
theorem addAll_flatten {dim : Nat} {start : γ → List α} {rows : List β} {f : β → γ → List α}
    (width : ∀ k ∈ keys, (start k).length = dim)
    (widths : ∀ r ∈ rows, ∀ k ∈ keys, (f r k).length = dim) :
    addAll (keys.map start).flatten (rows.map fun r => (keys.map (f r)).flatten) =
      (keys.map fun k => addAll (start k) (rows.map (f · k))).flatten := by
  induction rows generalizing start with
  | nil => rfl
  | cons r rows ih =>
    obtain ⟨first, others⟩ := List.forall_mem_cons.mp widths
    have same : ∀ k ∈ keys, (start k).length = (f r k).length :=
      fun k member => (width k member).trans (first k member).symm
    have kept : ∀ k ∈ keys, (List.zipWith (· + ·) (start k) (f r k)).length = dim :=
      fun k member => by rw [List.length_zipWith, ← same k member, width k member, Nat.min_self]
    rw [List.map_cons, addAll, List.foldl_cons, zipWith_flatten same]
    exact ih kept others

/-- Vectors with a slot for each key have the sums of the slots as the slots of their sum. -/
theorem sumOf_flatten {dim : Nat} {rows : List β} {f : β → γ → List α}
    (widths : ∀ r ∈ rows, ∀ k ∈ keys, (f r k).length = dim) :
    sumOf (keys.length * dim) (rows.map fun r => (keys.map (f r)).flatten) =
      (keys.map fun k => sumOf dim (rows.map (f · k))).flatten := by
  have start : (zeros (keys.length * dim) : List α) = (keys.map fun _ => zeros dim).flatten := by
    rw [List.map_const', zeros, zeros, List.flatten_replicate_replicate]
  rw [sumOf, start]
  exact addAll_flatten (fun _ _ => length_zeros dim) widths

end
end Weight

/-! ### Adding to entries -/

namespace Hypergraph

variable {α : Type} [Add α]

omit [Add α] in
theorem set_table {β : Type} {k : Nat} {table : Nat → β} {b : Nat} {v : β} :
    ((List.range k).map table).set b v =
      (List.range k).map fun c => if c = b then v else table c := by
  apply List.ext_getElem?
  intro i
  rw [List.getElem?_set, List.getElem?_map, List.getElem?_map, List.length_map, List.length_range]
  rcases Nat.lt_or_ge i k with inside | outside
  · rw [List.getElem?_range inside]
    by_cases same : b = i
    · simp [same, inside]
    · simp [same, Ne.symm same]
  · have none : (List.range k)[i]? = none := List.getElem?_eq_none (by simpa using outside)
    rw [none]
    by_cases same : b = i
    · simp [same, Nat.not_lt.mpr outside]
    · simp [same]

theorem addAt_table {k dim : Nat} {table : Nat → List α} {b : BlockId} {w : List α}
    (lengths : ∀ c, (table c).length = dim) (length : w.length = dim) :
    addAt ((List.range k).map table) b w = .ok ((List.range k).map fun c =>
      if c = b then List.zipWith (· + ·) (table c) w else table c) := by
  unfold addAt
  by_cases inside : b < k
  · have read : ((List.range k).map table)[b]? = some (table b) := by
      rw [List.getElem?_map, List.getElem?_range inside]
      rfl
    rw [read]
    simp only [Weight.add_ok (length.trans (lengths b).symm)]
    refine congrArg Except.ok (set_table.trans (List.map_congr_left fun c _ => ?_))
    split
    · rename_i same
      rw [same]
    · rfl
  · have read : ((List.range k).map table)[b]? = none :=
      List.getElem?_eq_none (by simpa using inside)
    rw [read]
    refine congrArg Except.ok (List.map_congr_left fun c member => ?_)
    have below := List.mem_range.mp member
    have other : c ≠ b := fun same => inside (same ▸ below)
    rw [if_neg other]

/-- Vectors that are added to the entries of a table leave in each entry the sum of its own. -/
theorem foldlM_addAt {k dim : Nat} {table : Nat → List α} {entries : List (BlockId × List α)}
    (lengths : ∀ c, (table c).length = dim) (vectors : ∀ e ∈ entries, e.2.length = dim) :
    entries.foldlM (fun sizes e => addAt sizes e.1 e.2) ((List.range k).map table) =
      .ok ((List.range k).map fun c =>
        Weight.addAll (table c) ((entries.filter (·.1 = c)).map Prod.snd)) := by
  induction entries generalizing table with
  | nil => rfl
  | cons e entries ih =>
    obtain ⟨first, others⟩ := List.forall_mem_cons.mp vectors
    rw [List.foldlM_cons, addAt_table lengths first]
    refine (ih (fun c => ?_) others).trans (congrArg Except.ok (List.map_congr_left fun c _ => ?_))
    · split
      · rw [List.length_zipWith, lengths c, first, Nat.min_self]
      · exact lengths c
    · by_cases same : c = e.1
      · rw [if_pos same, List.filter_cons_of_pos (by simpa using same.symm)]
        rfl
      · rw [if_neg same, List.filter_cons_of_neg (by simpa using Ne.symm same)]

/-! ### Slots of a flat vector -/

omit [Add α] in
theorem length_flatten_of_width {dim : Nat} {slots : List (List α)}
    (width : ∀ slot ∈ slots, slot.length = dim) : slots.flatten.length = slots.length * dim := by
  rw [List.length_flatten, List.map_congr_left width, List.map_const', List.sum_replicate_nat]

theorem addWithin_flatten {dim : Nat} {before : List (List α)} {slot w : List α}
    (after : List (List α)) (widths : ∀ s ∈ before, s.length = dim) (width : slot.length = dim)
    (length : w.length = dim) :
    Weight.addWithin (before.length * dim) dim (before ++ slot :: after).flatten w =
      .ok (before ++ List.zipWith (· + ·) slot w :: after).flatten := by
  have front : before.flatten.length = before.length * dim := length_flatten_of_width widths
  have both : (before.flatten ++ slot).length = before.length * dim + dim := by
    rw [List.length_append, front, width]
  have window : ((before ++ slot :: after).flatten.drop (before.length * dim)).take dim = slot := by
    rw [List.flatten_append, List.flatten_cons, List.drop_left' front, List.take_left' width]
  have behind : (before ++ slot :: after).flatten.drop (before.length * dim + dim) =
      after.flatten := by
    rw [List.flatten_append, List.flatten_cons, ← List.append_assoc, List.drop_left' both]
  have ahead : (before ++ slot :: after).flatten.take (before.length * dim) = before.flatten := by
    rw [List.flatten_append, List.take_left' front]
  rw [Weight.addWithin, window, behind, ahead, Weight.add_ok (length.trans width.symm)]
  simp [bind, Except.bind, pure, Except.pure]

/-- Adding to the window that a slot takes up is adding to the slot. -/
theorem addWithin_eq_addAt {dim : Nat} {slots : List (List α)} {b : BlockId} {w : List α}
    (width : ∀ slot ∈ slots, slot.length = dim) (length : w.length = dim)
    (inside : b < slots.length) :
    Weight.addWithin (b * dim) dim slots.flatten w = List.flatten <$> addAt slots b w := by
  have split : slots = slots.take b ++ slots[b] :: slots.drop (b + 1) := by
    rw [← List.drop_eq_getElem_cons inside, List.take_append_drop]
  have front : (slots.take b).length = b := List.length_take_of_le (Nat.le_of_lt inside)
  have own := width slots[b] (List.getElem_mem inside)
  have widths : ∀ s ∈ slots.take b, s.length = dim := fun s member =>
    width s (List.mem_of_mem_take member)
  have flat := addWithin_flatten (slots.drop (b + 1)) widths own length
  rw [front, ← split] at flat
  rw [flat, addAt, List.getElem?_eq_getElem inside]
  simp only [Weight.add_ok (length.trans own.symm), List.set_eq_take_append_cons_drop, if_pos inside]
  rfl

theorem foldlM_addWithin {dim : Nat} {slots : List (List α)} {entries : List (BlockId × List α)}
    (width : ∀ slot ∈ slots, slot.length = dim) (vectors : ∀ e ∈ entries, e.2.length = dim)
    (inside : ∀ e ∈ entries, e.1 < slots.length) :
    entries.foldlM (fun flat e => Weight.addWithin (e.1 * dim) dim flat e.2) slots.flatten =
      List.flatten <$> entries.foldlM (fun slots e => addAt slots e.1 e.2) slots := by
  induction entries generalizing slots with
  | nil => rfl
  | cons e entries ih =>
    obtain ⟨first, others⟩ := List.forall_mem_cons.mp vectors
    obtain ⟨bound, bounds⟩ := List.forall_mem_cons.mp inside
    rw [List.foldlM_cons, List.foldlM_cons, addWithin_eq_addAt width first bound]
    have own := width slots[e.1] (List.getElem_mem bound)
    have step : addAt slots e.1 e.2 =
        .ok (slots.set e.1 (List.zipWith (· + ·) slots[e.1] e.2)) := by
      rw [addAt, List.getElem?_eq_getElem bound]
      simp only [Weight.add_ok (first.trans own.symm)]
      rfl
    rw [step]
    refine ih (fun slot member => ?_) others (by rwa [List.length_set])
    rcases List.mem_or_eq_of_mem_set member with old | rfl
    · exact width slot old
    · rw [List.length_zipWith, own, first, Nat.min_self]

omit [Add α] in
theorem getElem?_table {β : Type} {k : Nat} {table : Nat → β} {b : Nat} {v : β} :
    ((List.range k).map table)[b]? = some v ↔ b < k ∧ v = table b := by
  rw [List.getElem?_map]
  rcases Nat.lt_or_ge b k with inside | outside
  · rw [List.getElem?_range inside, Option.map_some, Option.some.injEq, and_iff_right inside,
      eq_comm]
  · have none : (List.range k)[b]? = none := List.getElem?_eq_none (by simpa using outside)
    rw [none, Option.map_none]
    exact ⟨nofun, fun read => absurd read.1 (Nat.not_lt.mpr outside)⟩

omit [Add α] in
theorem getD_table {k : Nat} {table : Nat → List α} {default : List α}
    (beyond : ∀ b, k ≤ b → table b = default) (b : BlockId) :
    ((List.range k).map table)[b]?.getD default = table b := by
  rw [List.getElem?_map]
  rcases Nat.lt_or_ge b k with inside | outside
  · rw [List.getElem?_range inside]
    rfl
  · have none : (List.range k)[b]? = none := List.getElem?_eq_none (by simpa using outside)
    rw [none, beyond b outside]
    rfl

end Hypergraph
end Multilevel
