import Mathlib.Data.List.Nodup
import Multilevel.Grid
import Multilevel.Proofs.Word

/-!
# Indices of a grid

A scan numbers the cells of a grid from zero, line by line. Locations inside the grid and numbers
below the count of its cells stand for one another (`indexing`), on a grid of any extent, and the
arithmetic needs no more than words of 64 bits.
-/
namespace Multilevel.Grid

variable {extent loc : Location} {i x y : Nat}

/-! ### Arithmetic on words -/

namespace Strict

open Word

/-- The width and the height of a grid, if there are cells in it. -/
def size? (extent : Location) : Except Misfit (Option (BitVec 64 × BitVec 64)) := do
  if extent.x ≤ 0 ∨ extent.y ≤ 0 then return none
  else return some (← ofCoordinate extent.x, ← ofCoordinate extent.y)

/-- The number of a place on a line, where the lines before it have some length each. -/
def number (line length place : BitVec 64) : Except Misfit (BitVec 64) := do
  add (← mul line length) place

def indexOf? (extent loc : Location) (scan : Scan) : Except Misfit (Option (BitVec 64)) := do
  if loc.x < 0 ∨ loc.y < 0 ∨ extent.x ≤ loc.x ∨ extent.y ≤ loc.y then return none
  else match ← size? extent with
    | none => return none
    | some (width, height) =>
      let x ← ofCoordinate loc.x
      let y ← ofCoordinate loc.y
      match scan with
      | .columns => return some (← number x height y)
      | .rows => return some (← number y width x)

def locationOf? (extent : Location) (index : BitVec 64) (scan : Scan) :
    Except Misfit (Option Location) := do
  match ← size? extent with
  | none => return none
  | some (width, height) =>
    if index < (← mul width height) then
      match scan with
      | .columns => return some ⟨← toCoordinate (index / height), ← toCoordinate (index % height)⟩
      | .rows => return some ⟨← toCoordinate (index % width), ← toCoordinate (index / width)⟩
    else return none

end Strict

/-! ### Cells -/

/-- The location is that of a cell of the grid. -/
def Inside (extent loc : Location) : Prop :=
  0 ≤ loc.x ∧ 0 ≤ loc.y ∧ loc.x < extent.x ∧ loc.y < extent.y

/-- The number is below width times height, neither of which is zero or negative. -/
def Counted (extent : Location) (i : Nat) : Prop :=
  0 < extent.x ∧ 0 < extent.y ∧ (i : Int) < extent.x.toInt * extent.y.toInt

def Scan.rank (extent : Location) (x y : Nat) : Scan → Nat
  | .columns => x * units extent.y + y
  | .rows => y * units extent.x + x

theorem units_lt (a : Int32) : units a < 2 ^ 31 := by
  have bound := a.toInt_lt
  rw [units]
  omega

theorem ofNat_units {a : Int32} (sign : 0 ≤ a) : .ofNat (units a) = a := a.ofNat_toNatClampNeg sign

theorem units_ofNat {n : Nat} (small : n < 2 ^ 31) : units (.ofNat n) = n :=
  Int32.toNatClampNeg_ofNat_of_lt small

theorem ofNat_lt_iff {n : Nat} {a : Int32} (small : n < 2 ^ 31) :
    Int32.ofNat n < a ↔ n < units a := by
  rw [Int32.lt_iff_toInt_lt, Int32.toInt_ofNat_of_lt small, units, Int.lt_toNat]

theorem inside_iff : Inside extent loc ↔
    ∃ x < units extent.x, ∃ y < units extent.y, loc = ⟨.ofNat x, .ofNat y⟩ := by
  constructor
  · rintro ⟨left, bottom, right, top⟩
    rw [← ofNat_units left, ofNat_lt_iff (units_lt _)] at right
    rw [← ofNat_units bottom, ofNat_lt_iff (units_lt _)] at top
    exact ⟨_, right, _, top, by rw [ofNat_units left, ofNat_units bottom]⟩
  · rintro ⟨x, right, y, top, rfl⟩
    have wide := Nat.lt_trans right (units_lt _)
    have high := Nat.lt_trans top (units_lt _)
    exact ⟨Int32.zero_le_ofNat_of_lt wide, Int32.zero_le_ofNat_of_lt high,
      (ofNat_lt_iff wide).mpr right, (ofNat_lt_iff high).mpr top⟩

theorem counted_iff : Counted extent i ↔ i < units extent.x * units extent.y := by
  have value (a : Int32) (positive : 0 < a) : a.toInt = units a :=
    Int32.toInt_eq_toNatClampNeg (Int32.le_of_lt positive)
  have sign (a : Int32) : 0 < a ↔ 0 < units a := ofNat_lt_iff (by decide)
  constructor
  · rintro ⟨wide, high, below⟩
    rw [value _ wide, value _ high] at below
    exact_mod_cast below
  · intro below
    have cells : 0 < units extent.x * units extent.y := Nat.zero_lt_of_lt below
    have wide := (sign _).mpr (Nat.pos_of_mul_pos_right cells)
    have high := (sign _).mpr (Nat.pos_of_mul_pos_left cells)
    refine ⟨wide, high, ?_⟩
    rw [value _ wide, value _ high]
    exact_mod_cast below

theorem Scan.rank_lt (right : x < units extent.x) (top : y < units extent.y) (scan : Scan) :
    scan.rank extent x y < units extent.x * units extent.y := by
  cases scan with
  | columns =>
    calc x * units extent.y + y < (x + 1) * units extent.y := by rw [Nat.add_one_mul]; omega
      _ ≤ units extent.x * units extent.y := Nat.mul_le_mul_right _ right
  | rows =>
    calc y * units extent.x + x < (y + 1) * units extent.x := by rw [Nat.add_one_mul]; omega
      _ ≤ units extent.y * units extent.x := Nat.mul_le_mul_right _ top
      _ = units extent.x * units extent.y := Nat.mul_comm ..

theorem exists_rank (below : i < units extent.x * units extent.y) (scan : Scan) :
    ∃ x < units extent.x, ∃ y < units extent.y, scan.rank extent x y = i := by
  have cells := Nat.zero_lt_of_lt below
  cases scan with
  | columns =>
    exact ⟨i / units extent.y, Nat.div_lt_of_lt_mul (by rw [Nat.mul_comm]; exact below),
      i % units extent.y, Nat.mod_lt _ (Nat.pos_of_mul_pos_left cells), Nat.div_add_mod' ..⟩
  | rows =>
    exact ⟨i % units extent.x, Nat.mod_lt _ (Nat.pos_of_mul_pos_right cells),
      i / units extent.x, Nat.div_lt_of_lt_mul below, Nat.div_add_mod' ..⟩

/-! ### Both directions -/

theorem not_inside_iff : ¬ Inside extent loc ↔
    loc.x < 0 ∨ loc.y < 0 ∨ extent.x ≤ loc.x ∨ extent.y ≤ loc.y := by
  simp only [Inside, not_and_or, Int32.not_lt, Int32.not_le]

theorem indexOf?_outside (outside : ¬ Inside extent loc) (scan : Scan) :
    indexOf? extent loc scan = none :=
  if_pos (not_inside_iff.mp outside)

theorem indexOf?_ofNat (right : x < units extent.x) (top : y < units extent.y) (scan : Scan) :
    indexOf? extent ⟨.ofNat x, .ofNat y⟩ scan = some (scan.rank extent x y) := by
  have inside : Inside extent ⟨.ofNat x, .ofNat y⟩ := inside_iff.mpr ⟨x, right, y, top, rfl⟩
  have column : units (.ofNat x) = x := units_ofNat (Nat.lt_trans right (units_lt _))
  have row : units (.ofNat y) = y := units_ofNat (Nat.lt_trans top (units_lt _))
  unfold indexOf?
  rw [if_neg (fun outside => not_inside_iff.mpr outside inside)]
  cases scan <;> simp only [Scan.rank, column, row]

theorem locationOf?_beyond (beyond : units extent.x * units extent.y ≤ i) (scan : Scan) :
    locationOf? extent i scan = none :=
  if_neg (Nat.not_lt.mpr beyond)

theorem locationOf?_rank (right : x < units extent.x) (top : y < units extent.y) (scan : Scan) :
    locationOf? extent (scan.rank extent x y) scan = some ⟨.ofNat x, .ofNat y⟩ := by
  have below := scan.rank_lt right top
  unfold locationOf?
  rw [if_pos below]
  cases scan with
  | columns =>
    obtain ⟨line, place⟩ := (Nat.div_mod_unique (a := x * units extent.y + y)
      (Nat.zero_lt_of_lt top)).mpr ⟨by rw [Nat.mul_comm, Nat.add_comm], top⟩
    simp only [Scan.rank, line, place]
  | rows =>
    obtain ⟨line, place⟩ := (Nat.div_mod_unique (a := y * units extent.x + x)
      (Nat.zero_lt_of_lt right)).mpr ⟨by rw [Nat.mul_comm, Nat.add_comm], right⟩
    simp only [Scan.rank, line, place]

variable {scan : Scan}

theorem indexOf?_eq_some : indexOf? extent loc scan = some i ↔
    ∃ x < units extent.x, ∃ y < units extent.y, loc = ⟨.ofNat x, .ofNat y⟩ ∧
      scan.rank extent x y = i := by
  constructor
  · intro found
    have inside : Inside extent loc := Classical.byContradiction fun outside => by
      rw [indexOf?_outside outside] at found
      cases found
    obtain ⟨x, right, y, top, rfl⟩ := inside_iff.mp inside
    rw [indexOf?_ofNat right top] at found
    exact ⟨x, right, y, top, rfl, Option.some.inj found⟩
  · rintro ⟨x, right, y, top, rfl, rfl⟩
    exact indexOf?_ofNat right top scan

theorem locationOf?_eq_some : locationOf? extent i scan = some loc ↔
    ∃ x < units extent.x, ∃ y < units extent.y, loc = ⟨.ofNat x, .ofNat y⟩ ∧
      scan.rank extent x y = i := by
  constructor
  · intro found
    have below : i < units extent.x * units extent.y := Nat.lt_of_not_le fun beyond => by
      rw [locationOf?_beyond beyond] at found
      cases found
    obtain ⟨x, right, y, top, rfl⟩ := exists_rank below scan
    rw [locationOf?_rank right top] at found
    exact ⟨x, right, y, top, (Option.some.inj found).symm, rfl⟩
  · rintro ⟨x, right, y, top, rfl, rfl⟩
    exact locationOf?_rank right top scan

/-! ### Words suffice -/

namespace Strict

open Word

theorem size?_ok (cells : 0 < units extent.x * units extent.y) : size? extent =
    .ok (some (.ofNat 64 (units extent.x), .ofNat 64 (units extent.y))) := by
  obtain ⟨wide, high, -⟩ := counted_iff.mpr cells
  have positive : ¬ (extent.x ≤ 0 ∨ extent.y ≤ 0) := by
    rw [not_or, Int32.not_le, Int32.not_le]
    exact ⟨wide, high⟩
  have word {a : Int32} (sign : 0 < a) : ofCoordinate a = .ok (.ofNat 64 (units a)) := by
    rw [← ofCoordinate_ofNat (units_lt a), ofNat_units (Int32.le_of_lt sign)]
  rw [size?, if_neg positive, word wide, word high]
  rfl

theorem size?_empty (empty : units extent.x * units extent.y = 0) : size? extent = .ok none := by
  refine if_pos (Classical.byContradiction fun positive => ?_)
  rw [not_or, Int32.not_le, Int32.not_le] at positive
  have first : Inside extent ⟨0, 0⟩ := ⟨Int32.le_refl 0, Int32.le_refl 0, positive⟩
  obtain ⟨x, right, y, top, -⟩ := inside_iff.mp first
  have cells := Nat.mul_pos (Nat.zero_lt_of_lt right) (Nat.zero_lt_of_lt top)
  omega

theorem size_lt (extent : Location) : units extent.x * units extent.y < 2 ^ 64 :=
  Nat.lt_trans (Nat.mul_lt_mul'' (units_lt extent.x) (units_lt extent.y)) (by decide)

theorem number_ok {line length place : Nat} (short : line < 2 ^ 31) (narrow : length < 2 ^ 31)
    (small : line * length + place < 2 ^ 64) :
    number (.ofNat 64 line) (.ofNat 64 length) (.ofNat 64 place) =
      .ok (.ofNat 64 (line * length + place)) := by
  have product : line * length < 2 ^ 64 := Nat.lt_of_le_of_lt (Nat.le_add_right ..) small
  rw [number, mul_ofNat (Nat.lt_trans short (by decide)) (Nat.lt_trans narrow (by decide)) product]
  exact add_ofNat small

theorem indexOf?_eq (extent loc : Location) (scan : Scan) :
    indexOf? extent loc scan = .ok ((Grid.indexOf? extent loc scan).map (.ofNat 64)) := by
  by_cases inside : Inside extent loc
  · obtain ⟨x, right, y, top, rfl⟩ := inside_iff.mp inside
    have cells := Nat.mul_pos (Nat.zero_lt_of_lt right) (Nat.zero_lt_of_lt top)
    have rank := Nat.lt_trans (scan.rank_lt right top) (size_lt extent)
    have column : x < 2 ^ 31 := Nat.lt_trans right (units_lt _)
    have row : y < 2 ^ 31 := Nat.lt_trans top (units_lt _)
    rw [indexOf?, if_neg (fun outside => not_inside_iff.mpr outside inside), size?_ok cells,
      Grid.indexOf?_ofNat right top]
    simp only [ofCoordinate_ofNat column, ofCoordinate_ofNat row]
    cases scan with
    | columns =>
      change (number _ _ _ >>= fun i => pure (some i)) = _
      rw [number_ok column (units_lt _) rank]
      rfl
    | rows =>
      change (number _ _ _ >>= fun i => pure (some i)) = _
      rw [number_ok row (units_lt _) rank]
      rfl
  · rw [Grid.indexOf?_outside inside, indexOf?, if_pos (not_inside_iff.mp inside)]
    rfl

theorem split_ok {index : BitVec 64} {lines length : Nat} (few : lines < 2 ^ 31)
    (narrow : length < 2 ^ 31) (below : index.toNat < lines * length) :
    toCoordinate (index / .ofNat 64 length) = .ok (.ofNat (index.toNat / length)) ∧
      toCoordinate (index % .ofNat 64 length) = .ok (.ofNat (index.toNat % length)) := by
  have value : (BitVec.ofNat 64 length).toNat = length :=
    toNat_ofNat (Nat.lt_trans narrow (by decide))
  have line : index.toNat / length < lines :=
    Nat.div_lt_of_lt_mul (by rw [Nat.mul_comm]; exact below)
  have place : index.toNat % length < length :=
    Nat.mod_lt _ (Nat.pos_of_mul_pos_left (Nat.zero_lt_of_lt below))
  rw [toCoordinate, toCoordinate, BitVec.toNat_udiv, BitVec.toNat_umod, value,
    if_pos (Nat.lt_trans line few), if_pos (Nat.lt_trans place narrow)]
  exact ⟨rfl, rfl⟩

theorem locationOf?_eq (extent : Location) (index : BitVec 64) (scan : Scan) :
    locationOf? extent index scan = .ok (Grid.locationOf? extent index.toNat scan) := by
  rcases Nat.eq_zero_or_pos (units extent.x * units extent.y) with empty | cells
  · rw [locationOf?, size?_empty empty, Grid.locationOf?_beyond (empty ▸ Nat.zero_le _)]
    rfl
  · have wide := units_lt extent.x
    have high := units_lt extent.y
    have product : mul (.ofNat 64 (units extent.x)) (.ofNat 64 (units extent.y)) = .ok _ :=
      mul_ofNat (Nat.lt_trans wide (by decide)) (Nat.lt_trans high (by decide)) (size_lt extent)
    have counted : index < BitVec.ofNat 64 (units extent.x * units extent.y) ↔
        index.toNat < units extent.x * units extent.y := by
      rw [BitVec.lt_def, toNat_ofNat (size_lt extent)]
    unfold locationOf? Grid.locationOf?
    rw [size?_ok cells]
    change (mul _ _ >>= _) = _
    rw [product]
    change (if index < BitVec.ofNat 64 (units extent.x * units extent.y) then _ else _) = _
    by_cases below : index.toNat < units extent.x * units extent.y
    · rw [if_pos (counted.mpr below), if_pos below]
      cases scan with
      | columns =>
        obtain ⟨column, row⟩ := split_ok wide high below
        rw [column, row]
        rfl
      | rows =>
        obtain ⟨row, column⟩ := split_ok high wide (Nat.mul_comm .. ▸ below)
        rw [column, row]
        rfl
    · rw [if_neg (mt counted.mp below), if_neg below]
      rfl

end Strict

/-! ### All cells -/

theorem flatMap_range {β : Type} (lines length : Nat) (f : Nat → Nat → β) :
    ((List.range lines).flatMap fun x => (List.range length).map (f x)) =
      (List.range (lines * length)).map fun i => f (i / length) (i % length) := by
  induction lines with
  | zero => rw [Nat.zero_mul]; rfl
  | succ lines ih =>
    have last : (List.range length).map (f lines) =
        (List.range length).map fun j => f ((lines * length + j) / length)
          ((lines * length + j) % length) := by
      refine List.map_congr_left fun j member => ?_
      have inside := List.mem_range.mp member
      obtain ⟨line, place⟩ := (Nat.div_mod_unique (a := lines * length + j)
        (Nat.zero_lt_of_lt inside)).mpr ⟨by rw [Nat.mul_comm, Nat.add_comm], inside⟩
      rw [line, place]
    rw [List.range_succ, List.flatMap_append, ih, Nat.add_one_mul, List.range_add, List.map_append,
      List.map_map, List.flatMap_singleton, last]
    rfl

theorem cells_getElem? (extent : Location) (i : Nat) :
    (cells extent)[i]? = locationOf? extent i .columns := by
  rw [cells, flatMap_range, List.getElem?_map]
  unfold locationOf?
  by_cases below : i < units extent.x * units extent.y
  · rw [if_pos below, List.getElem?_range below]
    rfl
  · rw [if_neg below, List.getElem?_eq_none (by simpa using below)]
    rfl

/-- Locations of a grid and numbers below the count of its cells stand for one another. -/
structure Indexing (extent : Location) (scan : Scan) : Prop where
  indexed : ∀ loc, (∃ i, indexOf? extent loc scan = some i) ↔ Inside extent loc
  located : ∀ i, (∃ loc, locationOf? extent i scan = some loc) ↔ Counted extent i
  counted : ∀ loc i, indexOf? extent loc scan = some i → Counted extent i
  inverse : ∀ loc i, indexOf? extent loc scan = some i ↔ locationOf? extent i scan = some loc
  /-- No sum, product or conversion on the way to an index or a location is without a result. -/
  indexWords : ∀ loc, Strict.indexOf? extent loc scan =
    .ok ((indexOf? extent loc scan).map (.ofNat 64))
  locationWords : ∀ index, Strict.locationOf? extent index scan =
    .ok (locationOf? extent index.toNat scan)
  words : ∀ i, Counted extent i → i < 2 ^ 64

theorem indexing_scan (extent : Location) (scan : Scan) : Indexing extent scan := by
  have located (i : Nat) : (∃ loc, locationOf? extent i scan = some loc) ↔ Counted extent i := by
    rw [counted_iff]
    constructor
    · rintro ⟨loc, found⟩
      obtain ⟨x, right, y, top, -, rfl⟩ := locationOf?_eq_some.mp found
      exact scan.rank_lt right top
    · intro below
      obtain ⟨x, right, y, top, rfl⟩ := exists_rank below scan
      exact ⟨_, locationOf?_rank right top scan⟩
  have indexed (loc : Location) : (∃ i, indexOf? extent loc scan = some i) ↔ Inside extent loc := by
    rw [inside_iff]
    constructor
    · rintro ⟨i, found⟩
      obtain ⟨x, right, y, top, rfl, -⟩ := indexOf?_eq_some.mp found
      exact ⟨x, right, y, top, rfl⟩
    · rintro ⟨x, right, y, top, rfl⟩
      exact ⟨_, indexOf?_ofNat right top scan⟩
  have inverse (loc : Location) (i : Nat) :
      indexOf? extent loc scan = some i ↔ locationOf? extent i scan = some loc :=
    indexOf?_eq_some.trans locationOf?_eq_some.symm
  exact {
    indexed
    located
    counted := fun loc i found => (located i).mp ⟨loc, (inverse loc i).mp found⟩
    inverse
    indexWords := fun loc => Strict.indexOf?_eq extent loc scan
    locationWords := fun index => Strict.locationOf?_eq extent index scan
    words := fun i below => Nat.lt_trans (counted_iff.mp below) (Strict.size_lt extent) }

theorem nodup_cells (extent : Location) : (cells extent).Nodup := by
  have inverse := (indexing_scan extent .columns).inverse
  refine List.nodup_iff_getElem?_ne_getElem?.mpr fun i j earlier bound same => ?_
  rw [List.getElem?_eq_getElem bound, cells_getElem?] at same
  have other := cells_getElem? extent j
  rw [List.getElem?_eq_getElem bound] at other
  have index := (inverse _ j).mpr other.symm
  rw [(inverse _ i).mpr same] at index
  exact Nat.ne_of_lt earlier (Option.some.inj index)

/-- Both scans number the cells of a grid, whatever its extent, and the list of all cells has them
in the order of one of the scans. -/
theorem indexing (extent : Location) :
    (∀ scan, Indexing extent scan) ∧
    (∀ i, (cells extent)[i]? = locationOf? extent i .columns) ∧ (cells extent).Nodup ∧
    (extent.x ≤ 0 ∨ extent.y ≤ 0 → cells extent = []) := by
  refine ⟨indexing_scan extent, cells_getElem? extent, nodup_cells extent, fun flat => ?_⟩
  refine List.eq_nil_iff_forall_not_mem.mpr fun loc member => ?_
  obtain ⟨i, read⟩ := List.mem_iff_getElem?.mp member
  obtain ⟨wide, high, -⟩ :=
    ((indexing_scan extent .columns).located i).mp ⟨loc, (cells_getElem? extent i).symm.trans read⟩
  rcases flat with narrow | low
  · exact absurd wide (Int32.not_lt.mpr narrow)
  · exact absurd high (Int32.not_lt.mpr low)

example : indexOf? ⟨50000, 50000⟩ ⟨49999, 49999⟩ .rows = some 2499999999 := by decide

end Multilevel.Grid
