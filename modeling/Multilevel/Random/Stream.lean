import Multilevel.Random.ChaCha
import Multilevel.Snapshot.Bytes

/-!
# Random streams

A stream of random words is a key and a position. Numbers below a bound are drawn without bias: a
word is multiplied by the bound, the high half of the product is the number, and words whose low
half is beyond a multiple of the bound are passed over.
-/
namespace Multilevel.Random

structure Stream where
  key : Vector UInt32 8
  position : Nat
  deriving DecidableEq

abbrev Draw := StateM Stream

/-! ### Seeds -/

/-- A step of the generator that fills the key: a linear congruence on 64 bits. -/
def seedStep (s : UInt64) : UInt64 := s * 6364136223846793005 + 11634580027462260723

/-- The word of a state of that generator: bits from its middle, rotated by its top. -/
def seedWord (s : UInt64) : UInt32 :=
  let x := (((s >>> 18) ^^^ s) >>> 27).toUInt32
  -- a rotation by nothing must not become a shift by a whole word
  let n := (s >>> 59).toUInt32
  (x >>> n) ||| (x <<< ((32 - n) % 32))

def seedState (seed : UInt64) (steps : Nat) : UInt64 := Nat.repeat seedStep steps seed

def Stream.ofSeed (seed : UInt64) : Stream where
  key := Vector.ofFn fun i => seedWord (seedState seed (i + 1))
  position := 0

/-! ### Words -/

def next32 : Draw UInt32 := fun s => (word s.key s.position, { s with position := s.position + 1 })

/-- The next two words as one, the first one low. -/
def next64 : Draw UInt64 := do
  let low ← next32
  let high ← next32
  return (high.toUInt64 <<< 32) ||| low.toUInt64

/-- The next bytes. Words are taken whole, and what is left of the last one is lost. -/
def nextBytes (count : Nat) : Draw (List UInt8) := do
  let words ← (List.replicate ((count + 3) / 4) ()).mapM fun _ => next32
  return (words.flatMap fun w => Snapshot.littleEndian 4 w.toNat).take count

/-! ### Numbers below a bound -/

/-- The number of words before a stream repeats itself: sixteen for each value of the counter. A
draw that has passed over that many would do so for ever. -/
def period : Nat := 0x100000000000000000

def drawBelow (bits bound zone : Nat) (next : Draw Nat) : Nat → Draw Nat
  | 0 => pure 0
  | tries + 1 => do
    let product := (← next) * bound
    if product % Nat.pow 2 bits ≤ zone then return product / Nat.pow 2 bits
    else drawBelow bits bound zone next tries

/-- The last low half that counts, if those of the bound times a power of two do. -/
def powerZone (bits bound : Nat) : Nat := bound * Nat.pow 2 (bits - (bound.log2 + 1)) - 1

/-- The last low half that counts, if as many as possible do. -/
def fullZone (bits bound : Nat) : Nat := Nat.pow 2 bits - 1 - Nat.pow 2 bits % bound

def below32 (bound : Nat) : Draw Nat :=
  drawBelow 32 bound (powerZone 32 bound) (do return (← next32).toNat) period

def below64 (bound : Nat) : Draw Nat :=
  drawBelow 64 bound (powerZone 64 bound) (do return (← next64).toNat) period

/-- A number below a bound, from one word at a time, of which as few as possible are passed over. -/
def spread32 (bound : Nat) : Draw Nat :=
  drawBelow 32 bound (fullZone 32 bound) (do return (← next32).toNat) period

/-! ### Orders and choices -/

/-- A random order of a list: each place from the last to the second is exchanged with one that is
not behind it. -/
def shuffle {β : Type} (elements : List β) : Draw (List β) := do
  let places := (List.range elements.length).drop 1
  let shuffled ← places.reverse.foldlM
    (fun (a : Array β) i => do return a.swapIfInBounds i (← below32 (i + 1))) elements.toArray
  return shuffled.toList

/-- A choice of places: each of the first `amount` places is exchanged with one that is not before
it. -/
def chooseInPlace (length amount : Nat) : Draw (List Nat) := do
  let chosen ← (List.range amount).foldlM
    (fun (a : Array Nat) i => do return a.swapIfInBounds i (i + (← below32 (length - i))))
    (Array.range length)
  return chosen.toList.take amount

/-- A choice of places, one at a time: of the places up to `j` one is drawn, and `j` itself is taken
if that one is chosen already. A large choice is shuffled, whatever its order is for. -/
def chooseOneByOne (length amount : Nat) : Draw (List Nat) := do
  let chosen ← ((List.range length).drop (length - amount)).foldlM
    (fun chosen j => do
      let t ← below32 (j + 1)
      return if t ∈ chosen then chosen ++ [j] else chosen ++ [t]) []
  -- the order is lost later, but the words that it takes are drawn
  if 50 ≤ amount then shuffle chosen else return chosen

/-- A place that is not chosen yet: the first such that is drawn among all places, or else the first
of all. -/
def drawNew (length : Nat) (chosen : List Nat) : Nat → Draw Nat
  | 0 => pure (((List.range length).find? (· ∉ chosen)).getD 0)
  | tries + 1 => do
    let t ← spread32 length
    if t ∈ chosen then drawNew length chosen tries else return t

def chooseByRetry (length amount : Nat) : Draw (List Nat) :=
  (List.replicate amount ()).foldlM
    (fun chosen _ => do return chosen ++ [← drawNew length chosen period]) []

def vast : Nat := 500000

def large : Nat := 163

/-- Whether a choice is dense enough to be made in place, judged in single precision. -/
def isDense (length amount : Nat) : Bool :=
  let a := Float32.ofNat amount
  let bound :=
    if amount < large then
      if length < vast then (10 + 1.6 * a) * a else (70 / 9 + 8 / 45 * a) * a
    else if length < vast then 270 * a else 330 / 9 * a
  11 < amount && Float32.ofNat length < bound

/-- A choice of `amount` places out of `length`, or of all if there are fewer, in increasing
order. -/
def choose (length amount : Nat) : Draw (List Nat) := do
  let amount := min amount length
  let chosen ←
    if isDense length amount then chooseInPlace length amount
    else if amount < large then chooseOneByOne length amount
    else chooseByRetry length amount
  return chosen.mergeSort (· ≤ ·)

end Multilevel.Random
