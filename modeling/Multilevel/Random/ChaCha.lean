namespace Multilevel.Random

abbrev Block := Vector UInt32 16

def rotateLeft (x n : UInt32) : UInt32 := (x <<< n) ||| (x >>> (32 - n))

namespace Block

/-- Adds one word to another and mixes the sum into a third. -/
def mix (block : Block) (a b d : Fin 16) (n : UInt32) : Block :=
  let block := block.set a (block[a] + block[b])
  block.set d (rotateLeft (block[d] ^^^ block[a]) n)

def quarter (block : Block) (a b c d : Fin 16) : Block :=
  (((block.mix a b d 16).mix c d b 12).mix a b d 8).mix c d b 7

def doubleRound (block : Block) : Block :=
  let columns := (((block.quarter 0 4 8 12).quarter 1 5 9 13).quarter 2 6 10 14).quarter 3 7 11 15
  (((columns.quarter 0 5 10 15).quarter 1 6 11 12).quarter 2 7 8 13).quarter 3 4 9 14

end Block

/-- The input block of a key and a counter: four constants, the key, the counter, and the number of
the stream, which is zero. -/
def inputBlock (key : Vector UInt32 8) (counter : UInt64) : Block :=
  #v[0x61707865, 0x3320646e, 0x79622d32, 0x6b206574,
    key[0], key[1], key[2], key[3], key[4], key[5], key[6], key[7],
    counter.toUInt32, (counter >>> 32).toUInt32, 0, 0]

def outputBlock (key : Vector UInt32 8) (counter : UInt64) : Block :=
  let input := inputBlock key counter
  -- the sum with the input keeps the rounds from being undone
  Vector.zipWith (· + ·) (Nat.repeat Block.doubleRound 6 input) input

def word (key : Vector UInt32 8) (position : Nat) : UInt32 :=
  let block := outputBlock key (UInt64.ofNat (position / 16))
  block[position % 16]

end Multilevel.Random
