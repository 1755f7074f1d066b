import Multilevel.Scalar
import Multilevel.Fault

/-!
# Weight vectors

A weight vector is a list of scalars, one per dimension. An operation on two vectors asks them to
be equally long and names the lengths that are not.
-/
namespace Multilevel.Weight

variable {α β : Type}

def zeros [Zero α] (dim : Nat) : List α := List.replicate dim 0

def combine (f : α → α → β) (left right : List α) : Except Fault (List β) :=
  if left.length = right.length then .ok (List.zipWith f left right)
  else .error (.dimension .weightVector left.length right.length)

def add [Add α] (target source : List α) : Except Fault (List α) := combine (· + ·) target source

/-- Adds a vector to the entries of another one in a window. -/
def addWithin [Add α] (offset width : Nat) (target source : List α) : Except Fault (List α) := do
  let window ← add ((target.drop offset).take width) source
  return target.take offset ++ window ++ target.drop (offset + width)

def max [LE α] [DecidableLE α] (left right : List α) : Except Fault (List α) :=
  combine larger left right

/-- The cost of a vector: the sum of its entries, each times its factor. -/
def scalar [Zero α] [Neg α] [Add α] [Mul α] (weights factors : List α) : Except Fault α :=
  total <$> combine (· * ·) weights factors

/-- A vector of the given length: cut off at its end, or filled up with ones. -/
def reshape [One α] (dim : Nat) (weights : List α) : List α :=
  weights.take dim ++ List.replicate (dim - weights.length) 1

/-- The sum of vectors of one length, in order and from zeros. -/
def sum [Zero α] [Add α] (dim : Nat) (vectors : List (List α)) : Except Fault (List α) :=
  vectors.foldlM add (zeros dim)

end Multilevel.Weight
