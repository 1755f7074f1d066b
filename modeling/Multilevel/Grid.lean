/-!
# Grid locations

Locations on an integer grid, their distances, and the linear indices of a grid. A grid is given
by its extent, a location whose coordinates are the width and the height.
-/
namespace Multilevel

structure Location where
  x : Int32
  y : Int32
  deriving DecidableEq

namespace Location

def gap (a b : Int32) : Nat := (a.toInt - b.toInt).natAbs

def across (a b : Location) : Nat := gap a.x b.x

def along (a b : Location) : Nat := gap a.y b.y

def manhattan (a b : Location) : Nat := a.across b + a.along b

/-- Locations are ordered by column, then by row. -/
def compare (a b : Location) : Ordering :=
  (Ord.compare a.x.toInt b.x.toInt).then (Ord.compare a.y.toInt b.y.toInt)

def text (a : Location) : String := "(" ++ a.x.toInt.repr ++ ", " ++ a.y.toInt.repr ++ ")"

/-- A box that holds all locations met so far. -/
structure Box where
  low : Location
  high : Location

def Box.extend (b : Box) (l : Location) : Box where
  low := ⟨if l.x < b.low.x then l.x else b.low.x, if l.y < b.low.y then l.y else b.low.y⟩
  high := ⟨if b.high.x < l.x then l.x else b.high.x, if b.high.y < l.y then l.y else b.high.y⟩

/-- Width plus height of the least box around some locations, `0` for none. -/
def halfPerimeter : List Location → Nat
  | [] => 0
  | l :: rest =>
    let box := rest.foldl Box.extend ⟨l, l⟩
    box.low.manhattan box.high

end Location

namespace Grid

/-- Which coordinate runs first through the linear indices. -/
inductive Scan
  | columns | rows
  deriving DecidableEq, Repr

/-- The number of units in a coordinate, none if it is negative. -/
def units (a : Int32) : Nat := a.toInt.toNat

/-- The index of a location inside a grid. Scanning by columns runs down the first column, then
the second, and so on. -/
def indexOf? (extent loc : Location) (scan : Scan) : Option Nat :=
  if loc.x < 0 ∨ loc.y < 0 ∨ extent.x ≤ loc.x ∨ extent.y ≤ loc.y then none
  else match scan with
    | .columns => some (units loc.x * units extent.y + units loc.y)
    | .rows => some (units loc.y * units extent.x + units loc.x)

def locationOf? (extent : Location) (index : Nat) (scan : Scan) : Option Location :=
  let width := units extent.x
  let height := units extent.y
  if index < width * height then
    match scan with
    | .columns => some ⟨.ofNat (index / height), .ofNat (index % height)⟩
    | .rows => some ⟨.ofNat (index % width), .ofNat (index / width)⟩
  else none

/-- Every location of a grid, column by column. -/
def cells (extent : Location) : List Location :=
  (List.range (units extent.x)).flatMap fun x =>
    (List.range (units extent.y)).map fun y => ⟨.ofNat x, .ofNat y⟩

end Grid
end Multilevel
