import Multilevel.Hmetis.Graph
import Multilevel.Hypergraph.Cut

namespace Multilevel.Hmetis

open Source

/-- The block of a line. The whole line is one number. -/
def blockLine (l : Line) : Except Fault (Option BlockId) := do
  match ← token (fun s => (Text.integer s).toOption) l.number l.content with
  | .ofNat b => return some b
  | .negSucc 0 => return none
  | value => .error (.malformed l.number (.negativeBlock value))

def blocks : List Met → Except Fault Partition
  | [] => return []
  | .unreadable :: _ => .error .notText
  | .line l :: rest => do
    let block ← blockLine l
    return block :: (← blocks rest)

def readPartition (source : Source) : Except Fault Partition := blocks source.content

def blockText : Option BlockId → List Char
  | some b => Nat.toDigits 10 b ++ ['\n']
  | none => ['-', '1', '\n']

def writePartition (p : Partition) : String := String.ofList (p.flatMap blockText)

end Multilevel.Hmetis
