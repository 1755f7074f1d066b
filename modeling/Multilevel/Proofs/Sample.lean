import Mathlib.Algebra.Order.Field.Basic
import Mathlib.Algebra.Order.Ring.Rat
import Multilevel.Sample
import Multilevel.Proofs.Exact

namespace Multilevel

/-! ### Exact totals -/

theorem total_eq_sum (values : List Rat) : total values = values.sum := by
  rw [total, List.sum_eq_foldl]
  rfl

theorem Sample.mean_mul_length (values : List Rat) :
    mean values * (values.length : Rat) = values.sum := by
  cases values with
  | nil => exact zero_mul _
  | cons v values =>
    have count : ((v :: values).length : Rat) ≠ 0 := Nat.cast_ne_zero.mpr (Nat.succ_ne_zero _)
    rw [← total_eq_sum]
    exact div_mul_cancel₀ _ count

/-! ### Exact extremes -/

section
variable {α : Type} [LinearOrder α]

theorem smaller_eq_min (a b : α) : smaller a b = min a b := by
  rw [smaller, if_pos le_rfl, min_comm, min_def]

theorem larger_eq_max (a b : α) : larger a b = max a b := by
  rw [larger, if_pos le_rfl, max_def]

end

namespace Sample

theorem extreme_cons (pick : Rat → Rat → Rat) (bound v : Rat) (values : List Rat) :
    extreme pick bound (v :: values) = values.foldl pick v := by
  have all : (v :: values).filter (fun v => v ≤ v) = v :: values :=
    List.filter_eq_self.mpr fun w _ => decide_eq_true (le_refl w)
  rw [extreme, all]
  rfl

theorem least_eq (values : List Rat) : least values = values.min?.getD 0 := by
  cases values with
  | nil => rfl
  | cons v values =>
    have same : smaller = (min : Rat → Rat → Rat) := funext₂ smaller_eq_min
    rw [least, extreme_cons, List.min?_cons', same, Option.getD_some]

theorem greatest_eq (values : List Rat) : greatest values = values.max?.getD 0 := by
  cases values with
  | nil => rfl
  | cons v values =>
    have same : larger = (max : Rat → Rat → Rat) := funext₂ larger_eq_max
    rw [greatest, extreme_cons, List.max?_cons', same, Option.getD_some]

theorem isLeast {values : List Rat} (nonempty : values ≠ []) :
    least values ∈ values ∧ ∀ v ∈ values, least values ≤ v := by
  obtain ⟨low, found⟩ := Option.ne_none_iff_exists'.mp (mt List.min?_eq_none_iff.mp nonempty)
  rw [least_eq, found]
  exact List.min?_eq_some_iff.mp found

theorem isGreatest {values : List Rat} (nonempty : values ≠ []) :
    greatest values ∈ values ∧ ∀ v ∈ values, v ≤ greatest values := by
  obtain ⟨high, found⟩ := Option.ne_none_iff_exists'.mp (mt List.max?_eq_none_iff.mp nonempty)
  rw [greatest_eq, found]
  exact List.max?_eq_some_iff.mp found

/-! ### Relative distances -/

section
variable {α : Type} [Field α] [LinearOrder α]

theorem vanishes_iff {a : α} : vanishes a = true ↔ a = 0 := by
  rw [vanishes, Bool.and_eq_true, decide_eq_true_eq, decide_eq_true_eq, ← le_antisymm_iff]

variable [IsStrictOrderedRing α]

theorem magnitude_eq_abs (a : α) : magnitude a = |a| := by
  unfold magnitude
  split
  · rename_i below
    rw [zero_sub, abs_of_nonpos below]
  · rename_i above
    rw [abs_of_pos (not_le.mp above)]

variable [Gauge α] {value : α} {values : List α}

/-- The sign of the mean does not matter. A mean of zero is at no distance from itself, and
infinitely far from everything else. -/
theorem imbalance_eq : imbalance value values =
    if mean values = 0 then if value = 0 then 0 else Gauge.infinite
    else |mean values - value| / |mean values| := by
  simp only [imbalance, vanishes_iff, magnitude_eq_abs, abs_eq_zero, sub_eq_zero]
  by_cases zero : mean values = 0
  · simp only [zero, if_true, eq_comm (a := (0 : α))]
  · rw [if_neg zero, if_neg zero]

/-- A value is off by a ratio if it is so many means above the mean or below it. -/
theorem imbalance_eq_iff (rated : mean values ≠ 0) {ratio : α} (nonneg : 0 ≤ ratio) :
    imbalance value values = ratio ↔
      value = mean values + ratio * mean values ∨ value = mean values - ratio * mean values := by
  have away : |mean values| ≠ 0 := abs_ne_zero.mpr rated
  have scaled : ratio * |mean values| = |ratio * mean values| := by rw [abs_mul, abs_of_nonneg nonneg]
  have reach (x : α) : mean values - value = x ↔ value = mean values - x :=
    ⟨fun h => by rw [← h, sub_sub_cancel], fun h => by rw [h, sub_sub_cancel]⟩
  rw [imbalance_eq, if_neg rated, div_eq_iff away, scaled, abs_eq_abs, or_comm, reach, reach,
    sub_neg_eq_add]

end

end Sample

/-! ### Histograms -/

namespace Spread

section
variable {α : Type} [Zero α] [Neg α] [Add α] [Sub α] [Mul α] [Div α] [NatCast α]
  [LE α] [DecidableLE α] [LT α] [DecidableLT α] [Gauge α]

variable {s : Spread α} {buckets : Nat}

omit [Neg α] [Add α] [Mul α] [LE α] [DecidableLE α] in
theorem slot_lt (positive : 0 < buckets) (v : α) : s.slot buckets v < buckets := by
  unfold slot
  split
  · exact Nat.lt_of_le_of_lt (Nat.min_le_right _ _) (Nat.sub_lt positive Nat.one_pos)
  · exact positive

omit [Neg α] [LE α] [DecidableLE α] in
theorem sum_counts (positive : 0 < buckets) (values : List α) :
    ((List.range buckets).map fun i => (s.bucket buckets values i).count).sum = values.length := by
  have once (v : α) : (List.range buckets).countP (fun i => s.slot buckets v == i) = 1 := by
    have swap : (fun i => s.slot buckets v == i) = (· == s.slot buckets v) :=
      funext fun i => BEq.comm
    rw [swap]
    exact (List.nodup_range.count (a := s.slot buckets v)).trans
      (if_pos (List.mem_range.mpr (slot_lt positive v)))
  calc ((List.range buckets).map fun i => values.countP fun v => s.slot buckets v == i).sum
      = (values.map fun v => (List.range buckets).countP fun i => s.slot buckets v == i).sum :=
        sum_countP _ _ fun i v => s.slot buckets v == i
    _ = values.length := by simp [once]

theorem exists_histogram (values : List α) (requested : Nat) :
    ∃ buckets, (withHistogram values requested).histogram = some buckets ∧
      buckets.length = max 1 requested ∧ (buckets.map Bucket.count).sum = values.length := by
  refine ⟨_, rfl, ?_, ?_⟩
  · rw [List.length_map, List.length_range]
  · rw [List.map_map]
    exact sum_counts (Nat.lt_of_lt_of_le Nat.one_pos (Nat.le_max_left 1 requested)) values

end

/-! ### Exact buckets -/

/-- Buckets side by side from one bound to another. Each counts the values from its lower bound to
its upper one, which belongs to the next bucket if there is one. -/
structure Tiles (low high : Rat) (values : List Rat) (buckets : List (Bucket Rat)) : Prop where
  first : buckets.head?.map Bucket.lower = some low
  last : buckets.getLast?.map Bucket.upper = some high
  next : ∀ i b c, buckets[i]? = some b → buckets[i + 1]? = some c → b.upper = c.lower
  count : ∀ i b, buckets[i]? = some b → b.count = values.countP fun v =>
    b.lower ≤ v ∧ if i + 1 < buckets.length then v < b.upper else v ≤ b.upper

section
variable {s : Spread Rat} {buckets : Nat} {v : Rat}

theorem le_slot_iff (rising : s.least < s.greatest) (above : s.least ≤ v) {i : Nat}
    (inside : i < buckets) :
    i ≤ s.slot buckets v ↔ s.least + s.width buckets * (i : Rat) ≤ v := by
  have positive : (0 : Rat) < (buckets : Rat) := Nat.cast_pos.mpr (Nat.zero_lt_of_lt inside)
  have wide : 0 < s.width buckets := div_pos (sub_pos.mpr rising) positive
  have bound : i ≤ buckets - 1 := Nat.le_sub_one_of_lt inside
  have ratio : 0 ≤ (v - s.least) / s.width buckets := div_nonneg (sub_nonneg.mpr above) wide.le
  have whole : i ≤ Gauge.whole ((v - s.least) / s.width buckets) ↔
      (i : Rat) ≤ (v - s.least) / s.width buckets := by
    change i ≤ ((v - s.least) / s.width buckets).floor.toNat ↔ _
    rw [Int.le_toNat (Rat.le_floor_iff.mpr ratio), Rat.le_floor_iff, Rat.intCast_natCast]
  rw [slot, if_pos wide, le_min_iff, and_iff_left bound, whole, le_div_iff₀ wide,
    le_sub_iff_add_le', mul_comm]

theorem width_mul_count (positive : 0 < buckets) :
    s.least + s.width buckets * (buckets : Rat) = s.greatest := by
  have count : (buckets : Rat) ≠ 0 := Nat.cast_ne_zero.mpr positive.ne'
  rw [width, div_mul_cancel₀ _ count, add_sub_cancel]

theorem slot_eq_iff (rising : s.least < s.greatest) (above : s.least ≤ v) (below : v ≤ s.greatest)
    {i : Nat} (inside : i < buckets) : s.slot buckets v = i ↔
      s.least + s.width buckets * (i : Rat) ≤ v ∧
        if i + 1 < buckets then v < s.least + s.width buckets * ((i + 1 : Nat) : Rat)
        else v ≤ s.least + s.width buckets * ((i + 1 : Nat) : Rat) := by
  have positive := Nat.zero_lt_of_lt inside
  have limit : s.slot buckets v < buckets := slot_lt positive v
  rw [← le_slot_iff rising above inside]
  split
  · rename_i more
    rw [← not_le, ← le_slot_iff rising above more]
    omega
  · rename_i final
    obtain rfl : i + 1 = buckets := by omega
    rw [width_mul_count positive, and_iff_left below]
    omega

theorem tiles_buckets {values : List Rat} (positive : 0 < buckets) (rising : s.least < s.greatest)
    (within : ∀ v ∈ values, s.least ≤ v ∧ v ≤ s.greatest) :
    Tiles s.least s.greatest values ((List.range buckets).map (s.bucket buckets values)) where
  first := by
    obtain ⟨more, rfl⟩ := Nat.exists_eq_add_one.mpr positive
    rw [List.range_succ_eq_map]
    exact congrArg some ((congrArg (s.least + ·) (mul_zero _)).trans (add_zero _))
  last := by
    obtain ⟨more, rfl⟩ := Nat.exists_eq_add_one.mpr positive
    rw [List.range_succ, List.map_append, List.map_singleton, List.getLast?_concat]
    exact congrArg some (width_mul_count positive)
  next i b c left right := by
    obtain ⟨-, rfl⟩ := Hypergraph.getElem?_table.mp left
    obtain ⟨-, rfl⟩ := Hypergraph.getElem?_table.mp right
    rfl
  count i b read := by
    obtain ⟨inside, rfl⟩ := Hypergraph.getElem?_table.mp read
    rw [List.length_map, List.length_range]
    refine List.countP_congr fun v member => ?_
    obtain ⟨above, below⟩ := within v member
    rw [beq_iff_eq, decide_eq_true_eq]
    exact slot_eq_iff rising above below inside

end

/-- A histogram has the buckets that are asked for, but at least one, and no value is lost. Over
exact numbers the buckets lie side by side from the least value to the greatest, and each counts the
values between its bounds. -/
theorem withHistogram_counts (requested : Nat) :
    (∀ values : List Float, ∃ buckets,
      (withHistogram values requested).histogram = some buckets ∧
      buckets.length = max 1 requested ∧ (buckets.map Bucket.count).sum = values.length) ∧
    ∀ values : List Rat, let s := withHistogram values requested
      ∃ buckets, s.histogram = some buckets ∧
        buckets.length = max 1 requested ∧ (buckets.map Bucket.count).sum = values.length ∧
        (s.least < s.greatest → s.least ∈ values ∧ s.greatest ∈ values ∧
          (∀ v ∈ values, s.least ≤ v ∧ v ≤ s.greatest) ∧
          Tiles s.least s.greatest values buckets) := by
  refine ⟨fun values => exists_histogram values requested, fun values => ?_⟩
  have positive : 0 < max 1 requested := Nat.lt_of_lt_of_le Nat.one_pos (Nat.le_max_left 1 requested)
  obtain ⟨buckets, made, length, sum⟩ := exists_histogram values requested
  refine ⟨buckets, made, length, sum, fun rising => ?_⟩
  have nonempty : values ≠ [] := by
    rintro rfl
    exact absurd rising (lt_irrefl (0 : Rat))
  obtain ⟨first, least⟩ := Sample.isLeast nonempty
  obtain ⟨last, greatest⟩ := Sample.isGreatest nonempty
  obtain rfl := Option.some.inj made
  exact ⟨first, last, fun v member => ⟨least v member, greatest v member⟩,
    tiles_buckets positive rising fun v member => ⟨least v member, greatest v member⟩⟩

/-- Five buckets, of which the middle ones are empty. -/
theorem withHistogram_counts_five : ∃ buckets : List (Bucket Rat),
    (withHistogram [0, 1, 2, 3, 10] 5).histogram = some buckets ∧
      buckets.map Bucket.count = [2, 2, 0, 0, 1] ∧ Tiles 0 10 [0, 1, 2, 3, 10] buckets := by
  obtain ⟨buckets, made, -, -, exact⟩ := (withHistogram_counts 5).2 [0, 1, 2, 3, 10]
  obtain ⟨-, -, -, tiles⟩ := exact (by decide +kernel)
  obtain rfl := Option.some.inj made
  exact ⟨_, rfl, by decide +kernel, tiles⟩

end Spread
end Multilevel
