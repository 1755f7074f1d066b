import Mathlib.Algebra.Group.Int.Defs
import Multilevel.Grid
import Multilevel.Proofs.Word

/-!
# Boxes around locations

The half perimeter of a box around locations is what their columns reach over plus what their rows
do, from the least to the greatest of each (`halfPerimeter_eq`). As long as that is a word of 32
bits, so is every distance on the way to it.
-/
namespace Multilevel

/-! ### Reach -/

/-- From the least of some integers to the greatest, `0` for none. -/
def reach (values : List Int) : Int := values.max?.getD 0 - values.min?.getD 0

theorem reach_attained {values : List Int} (nonempty : values ≠ []) :
    ∃ low ∈ values, ∃ high ∈ values, (∀ v ∈ values, low ≤ v ∧ v ≤ high) ∧
      reach values = high - low := by
  obtain ⟨low, least⟩ := Option.ne_none_iff_exists'.mp (mt List.min?_eq_none_iff.mp nonempty)
  obtain ⟨high, greatest⟩ := Option.ne_none_iff_exists'.mp (mt List.max?_eq_none_iff.mp nonempty)
  obtain ⟨first, below⟩ := List.min?_eq_some_iff.mp least
  obtain ⟨last, above⟩ := List.max?_eq_some_iff.mp greatest
  refine ⟨low, first, high, last, fun v member => ⟨below v member, above v member⟩, ?_⟩
  rw [reach, least, greatest]
  rfl

theorem sub_le_reach {values : List Int} {a b : Int} (left : a ∈ values) (right : b ∈ values) :
    a - b ≤ reach values := by
  obtain ⟨low, -, high, -, between, same⟩ := reach_attained (List.ne_nil_of_mem left)
  have upper := (between a left).2
  have lower := (between b right).1
  omega

theorem reach_mono {part values : List Int} (kept : part ⊆ values) : reach part ≤ reach values := by
  by_cases empty : part = []
  · subst empty
    change 0 ≤ reach values
    cases values with
    | nil => exact Int.le_refl 0
    | cons v values =>
      have same : v - v ≤ reach (v :: values) := sub_le_reach List.mem_cons_self List.mem_cons_self
      omega
  · obtain ⟨low, first, high, last, -, same⟩ := reach_attained empty
    rw [same]
    exact sub_le_reach (kept last) (kept first)

theorem reach_nonneg (values : List Int) : 0 ≤ reach values := reach_mono (List.nil_subset values)

theorem reach_eq_zero {values : List Int} :
    reach values = 0 ↔ ∀ a ∈ values, ∀ b ∈ values, a = b := by
  constructor
  · intro none a left b right
    have forward := sub_le_reach left right
    have backward := sub_le_reach right left
    omega
  · intro same
    by_cases empty : values = []
    · rw [empty]
      rfl
    · obtain ⟨low, first, high, last, -, wide⟩ := reach_attained empty
      have flat := same low first high last
      omega

theorem reach_pair (a b : Int) : reach [a, b] = (a - b).natAbs := by
  obtain ⟨low, first, high, last, between, same⟩ := reach_attained (List.cons_ne_nil a [b])
  have left := between a (by simp)
  have right := between b (by simp)
  simp only [List.mem_cons, List.not_mem_nil, or_false] at first last
  omega

namespace Location

variable {locs : List Location}

def width (locs : List Location) : Int := reach (locs.map (·.x.toInt))

def height (locs : List Location) : Int := reach (locs.map (·.y.toInt))

/-! ### Boxes -/

theorem toInt_smaller (a b : Int32) : (if b < a then b else a).toInt = min a.toInt b.toInt := by
  simp only [Int32.lt_iff_toInt_lt]
  split <;> omega

theorem toInt_larger (a b : Int32) : (if a < b then b else a).toInt = max a.toInt b.toInt := by
  simp only [Int32.lt_iff_toInt_lt]
  split <;> omega

theorem sides_foldl (locs : List Location) (b : Box) :
    (locs.foldl Box.extend b).low.x.toInt = (locs.map (·.x.toInt)).foldl min b.low.x.toInt ∧
    (locs.foldl Box.extend b).low.y.toInt = (locs.map (·.y.toInt)).foldl min b.low.y.toInt ∧
    (locs.foldl Box.extend b).high.x.toInt = (locs.map (·.x.toInt)).foldl max b.high.x.toInt ∧
    (locs.foldl Box.extend b).high.y.toInt = (locs.map (·.y.toInt)).foldl max b.high.y.toInt := by
  induction locs generalizing b with
  | nil => exact ⟨rfl, rfl, rfl, rfl⟩
  | cons l locs ih =>
    simp only [List.foldl_cons, List.map_cons, ih, Box.extend, toInt_smaller, toInt_larger,
      and_self]

theorem halfPerimeter_eq (locs : List Location) :
    (halfPerimeter locs : Int) = width locs + height locs := by
  cases locs with
  | nil => rfl
  | cons l locs =>
    obtain ⟨left, bottom, right, top⟩ := sides_foldl locs ⟨l, l⟩
    have across := reach_nonneg ((l :: locs).map (·.x.toInt))
    have along := reach_nonneg ((l :: locs).map (·.y.toInt))
    simp only [reach, List.map_cons, List.max?_cons', List.min?_cons', Option.getD_some,
      ← left, ← bottom, ← right, ← top] at across along
    simp only [width, height, reach, List.map_cons, List.max?_cons', List.min?_cons',
      Option.getD_some, ← left, ← bottom, ← right, ← top]
    simp only [halfPerimeter, manhattan, Location.across, Location.along, gap]
    omega

/-! ### Arithmetic on words -/

namespace Strict

open Word

/-- The difference of two coordinates as a word, which has no sign. -/
def gap (a b : Int32) : BitVec 32 :=
  if a < b then b.toBitVec - a.toBitVec else a.toBitVec - b.toBitVec

def manhattan (a b : Location) : Except Misfit (BitVec 32) := add (gap a.x b.x) (gap a.y b.y)

def grow (box : Option Box) (l : Location) : Option Box :=
  match box with
  | none => some ⟨l, l⟩
  | some b => some (b.extend l)

def halfPerimeter (locs : List Location) : Except Misfit (BitVec 32) :=
  match locs.foldl grow none with
  | none => .ok 0
  | some b => manhattan b.low b.high

theorem toNat_gap (a b : Int32) : (gap a b).toNat = Location.gap a b := by
  have first := a.toBitVec.isLt
  have second := b.toBitVec.isLt
  have value (c : Int32) := c.toBitVec.toInt_eq_toNat_cond
  simp only [Int32.toInt_toBitVec] at value
  have left := value a
  have right := value b
  rw [gap, Location.gap]
  split
  · rename_i less
    rw [Int32.lt_iff_toInt_lt] at less
    rw [BitVec.toNat_sub]
    omega
  · rename_i least
    rw [Int32.lt_iff_toInt_lt] at least
    rw [BitVec.toNat_sub]
    omega

theorem manhattan_ok {a b : Location} (small : a.manhattan b < 2 ^ 32) :
    manhattan a b = .ok (.ofNat 32 (a.manhattan b)) := by
  rw [manhattan, add, toNat_gap, toNat_gap]
  exact ofNat_ok small

theorem foldl_grow (locs : List Location) (b : Box) :
    locs.foldl grow (some b) = some (locs.foldl Box.extend b) := by
  induction locs generalizing b with
  | nil => rfl
  | cons l locs ih => exact ih (b.extend l)

theorem halfPerimeter_ok (small : Location.halfPerimeter locs < 2 ^ 32) :
    halfPerimeter locs = .ok (.ofNat 32 (Location.halfPerimeter locs)) := by
  cases locs with
  | nil => rfl
  | cons l locs =>
    rw [halfPerimeter, List.foldl_cons, grow, foldl_grow]
    exact manhattan_ok small

end Strict

/-! ### Half perimeters -/

/-- The half perimeter of some locations, and what it says of them. -/
structure Boxed (locs : List Location) : Prop where
  sum : (halfPerimeter locs : Int) = width locs + height locs
  word : Strict.halfPerimeter locs = .ok (.ofNat 32 (halfPerimeter locs))
  small : halfPerimeter locs < 2 ^ 32
  part : ∀ part ⊆ locs, halfPerimeter part ≤ halfPerimeter locs ∧
    Strict.halfPerimeter part = .ok (.ofNat 32 (halfPerimeter part))
  members : ∀ others, (∀ l, l ∈ others ↔ l ∈ locs) →
    halfPerimeter others = halfPerimeter locs ∧
      Strict.halfPerimeter others = Strict.halfPerimeter locs
  pairs : ∀ a ∈ locs, ∀ b ∈ locs, a.manhattan b ≤ halfPerimeter locs ∧
    Strict.manhattan a b = .ok (.ofNat 32 (a.manhattan b))
  two : ∀ a b, locs = [a, b] → halfPerimeter locs = a.manhattan b
  zero : halfPerimeter locs = 0 ↔ ∀ a ∈ locs, ∀ b ∈ locs, a = b

theorem halfPerimeter_mono {part : List Location} (kept : part ⊆ locs) :
    halfPerimeter part ≤ halfPerimeter locs := by
  have wide : width part ≤ width locs := reach_mono (List.map_subset _ kept)
  have high : height part ≤ height locs := reach_mono (List.map_subset _ kept)
  have left := halfPerimeter_eq part
  have right := halfPerimeter_eq locs
  omega

theorem halfPerimeter_pair (a b : Location) : halfPerimeter [a, b] = a.manhattan b := by
  have sum := halfPerimeter_eq [a, b]
  simp only [width, height, List.map_cons, List.map_nil, reach_pair] at sum
  simp only [manhattan, across, along, gap]
  omega

theorem halfPerimeter_eq_zero : halfPerimeter locs = 0 ↔ ∀ a ∈ locs, ∀ b ∈ locs, a = b := by
  have sum := halfPerimeter_eq locs
  have wide := reach_nonneg (locs.map (·.x.toInt))
  have high := reach_nonneg (locs.map (·.y.toInt))
  have flat : halfPerimeter locs = 0 ↔ width locs = 0 ∧ height locs = 0 := by
    simp only [width, height] at sum ⊢
    omega
  rw [flat, width, height, reach_eq_zero, reach_eq_zero]
  simp only [List.forall_mem_map, Int32.toInt_inj]
  constructor
  · rintro ⟨columns, rows⟩ ⟨x, y⟩ left ⟨u, v⟩ right
    obtain rfl : x = u := columns _ left _ right
    obtain rfl : y = v := rows _ left _ right
    rfl
  · intro same
    exact ⟨fun a left b right => congrArg x (same a left b right),
      fun a left b right => congrArg y (same a left b right)⟩

/-- Where the columns and the rows together reach over no more than a word counts, the half
perimeter is exact. -/
theorem halfPerimeter_boxed (fits : width locs + height locs < 2 ^ 32) : Boxed locs := by
  have sum := halfPerimeter_eq locs
  have small : halfPerimeter locs < 2 ^ 32 := by omega
  have part {part : List Location} (kept : part ⊆ locs) :
      halfPerimeter part ≤ halfPerimeter locs ∧
        Strict.halfPerimeter part = .ok (.ofNat 32 (halfPerimeter part)) :=
    ⟨halfPerimeter_mono kept,
      Strict.halfPerimeter_ok (Nat.lt_of_le_of_lt (halfPerimeter_mono kept) small)⟩
  refine ⟨sum, (part (List.Subset.refl locs)).2, small, fun _ => part, ?_, ?_, ?_,
    halfPerimeter_eq_zero⟩
  · intro others same
    have value : halfPerimeter others = halfPerimeter locs :=
      Nat.le_antisymm (halfPerimeter_mono fun l => (same l).mp)
        (halfPerimeter_mono fun l => (same l).mpr)
    rw [(part fun l => (same l).mp).2, (part (List.Subset.refl locs)).2, value]
    exact ⟨rfl, rfl⟩
  · intro a left b right
    have both : [a, b] ⊆ locs :=
      List.cons_subset.mpr ⟨left, List.cons_subset.mpr ⟨right, List.nil_subset locs⟩⟩
    have bound : a.manhattan b ≤ halfPerimeter locs := by
      rw [← halfPerimeter_pair]
      exact halfPerimeter_mono both
    exact ⟨bound, Strict.manhattan_ok (Nat.lt_of_le_of_lt bound small)⟩
  · rintro a b rfl
    exact halfPerimeter_pair a b

theorem halfPerimeter_boxed_row :
    let row : List Location := [⟨0, 7⟩, ⟨.minValue, 7⟩, ⟨.maxValue, 7⟩]
    width row + height row < 2 ^ 32 ∧ Strict.halfPerimeter row = .ok 4294967295 ∧
      Strict.manhattan ⟨.minValue, 7⟩ ⟨.maxValue, 7⟩ = .ok 4294967295 ∧
      halfPerimeter [⟨0, 7⟩, ⟨.minValue, 7⟩] ≤ halfPerimeter row := by
  intro row
  have fits : width row + height row < 2 ^ 32 := by decide
  have boxed := halfPerimeter_boxed fits
  exact ⟨fits, boxed.word, (boxed.pairs _ (by simp [row]) _ (by simp [row])).2,
    (boxed.part _ (by simp [row])).1⟩

end Location
end Multilevel
