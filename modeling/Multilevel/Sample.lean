import Multilevel.Scalar

namespace Multilevel

structure Bucket (α : Type) where
  lower : α
  upper : α
  count : Nat
  deriving DecidableEq

structure Spread (α : Type) where
  count : Nat
  least : α
  greatest : α
  mean : α
  deviation : α
  histogram : Option (List (Bucket α)) := none
  deriving DecidableEq

namespace Sample

variable {α : Type} [Zero α] [Neg α] [Add α] [Sub α] [Mul α] [Div α] [NatCast α]
  [LE α] [DecidableLE α]

/-- The arithmetic mean, zero for no values. -/
def mean (values : List α) : α :=
  if values.isEmpty then 0 else total values / (values.length : α)

/-- The mean square distance from the mean, zero for no values. -/
def variance (values : List α) : α :=
  let m := mean values
  if values.isEmpty then 0
  else total (values.map fun v => (v - m) * (v - m)) / (values.length : α)

/-- How far a value is from the mean of a sample, relative to that mean. A mean of zero is at no
distance from itself and infinitely far from anything else. -/
def imbalance [Gauge α] (value : α) (values : List α) : α :=
  let m := mean values
  let deviation := magnitude (m - value)
  if vanishes m then (if vanishes deviation then 0 else Gauge.infinite)
  else deviation / magnitude m

variable [Gauge α]

def deviation (values : List α) : α := Gauge.sqrt (variance values)

/-- The extreme of a sample under `pick`: zero for no values, and the given bound for values of
which none can be compared, not even with itself. -/
def extreme (pick : α → α → α) (bound : α) (values : List α) : α :=
  if values.isEmpty then 0
  else
    -- values that are not even at most themselves take no part
    match values.filter fun v => v ≤ v with
    | [] => bound
    | v :: rest => rest.foldl pick v

def least (values : List α) : α := extreme smaller Gauge.infinite values

def greatest (values : List α) : α := extreme larger (-Gauge.infinite) values

end Sample

namespace Spread

variable {α : Type} [Zero α] [Neg α] [Add α] [Sub α] [Mul α] [Div α] [NatCast α]
  [LE α] [DecidableLE α] [LT α] [DecidableLT α] [Gauge α]

def of (values : List α) : Spread α where
  count := values.length
  least := Sample.least values
  greatest := Sample.greatest values
  mean := Sample.mean values
  deviation := Sample.deviation values

def width (s : Spread α) (buckets : Nat) : α := (s.greatest - s.least) / (buckets : α)

/-- The bucket a value falls in. The last one takes the largest value too, and the first one takes
all values when the buckets have no width. -/
def slot (s : Spread α) (buckets : Nat) (value : α) : Nat :=
  if 0 < s.width buckets then
    min (Gauge.whole ((value - s.least) / s.width buckets)) (buckets - 1)
  else 0

def bucket (s : Spread α) (buckets : Nat) (values : List α) (i : Nat) : Bucket α where
  lower := s.least + s.width buckets * (i : α)
  upper := s.least + s.width buckets * ((i + 1 : Nat) : α)
  count := values.countP fun v => s.slot buckets v == i

/-- The spread of a sample with a histogram of at least one bucket. -/
def withHistogram (values : List α) (buckets : Nat) : Spread α :=
  let s := of values
  let buckets := max 1 buckets
  { s with histogram := some ((List.range buckets).map (s.bucket buckets values)) }

end Spread
end Multilevel
