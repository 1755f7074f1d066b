import Multilevel.CommandLine.Arguments
import Multilevel.Folder
import Multilevel.Yaml.Factors
import Multilevel.Text.Quoted
import Multilevel.Json.Data
import Multilevel.Hypergraph.Digest
import Multilevel.Level.Transfer

namespace Multilevel.CommandLine

inductive Failure
  | usage
  | fault (cause : Fault)
  /-- A settings or cluster file that cannot be read, or a report that cannot be written. -/
  | inaccessible (cause : Fault)
  | settings
  | clusterToken (line : Nat) (token : List Char) (cause : Text.IntegerFault)

def clusterMessage (line : Nat) (token : List Char) (cause : Text.IntegerFault) : String :=
  "cluster file line " ++ line.repr ++ ": " ++ Text.quoted token ++ ": " ++ cause.message

structure Outcome where
  output : String := ""
  folder : Folder

def check {β : Type} (result : Except Fault β) : Except Failure β := result.mapError .fault

def loadText (f : Folder) (path : String) : Except Failure String :=
  (f.readText path).mapError .inaccessible

def loadFactors (f : Folder) : Option String → Except Failure (Factors Float)
  | none => .ok (.uniform 1 1)
  | some path => do
    match Yaml.factors? (← loadText f path) with
    | none => .error .settings
    | some factors =>
      check factors.check
      return factors

def clusterLine (l : Source.Line) : Except Failure (List NodeId) :=
  l.words.mapM fun token => (Text.natural token).mapError (.clusterToken l.number token)

def contentLines (text : String) : List Source.Line :=
  (Source.contentAfter 0 ((Text.lines text.toList).map some)).filterMap fun
    | .line l => some l
    | .unreadable => none

def parseClusters (text : String) : Except Failure Clustering :=
  (contentLines text).mapM clusterLine

def loadChild {α : Type} [Zero α] [Add α] (f : Folder) (g : Hypergraph α) (c : Clusters) :
    Except Failure (Level α) := do
  let clusters ← parseClusters (← loadText f c.file)
  check ((Level.ofGraph g).coarsen clusters ⟨c.keepBoundary⟩)

structure Metrics (α : Type) where
  cut : List α
  cutCost : α
  blockWeights : List (List α)
  blockCuts : List (List α)
  blockImbalance : List (List α)

def metrics {α : Type} [Zero α] [Neg α] [Add α] [Sub α] [Mul α] [Div α] [NatCast α] [LE α]
    [DecidableLE α] [Gauge α] (g : Hypergraph α) (p : Partition) : Except Fault (Metrics α) := do
  let cut ← g.cut p
  return {
    cut
    cutCost := ← g.edgeCost cut
    blockWeights := ← g.blockWeights p
    blockCuts := ← g.blockCuts p
    blockImbalance := ← g.blockImbalance p }

def Metrics.toJson (m : Metrics Float) : Json :=
  .record [("cut_size", .ofFloats m.cut), ("scalar_cut_size", .ofFloat m.cutCost),
    ("block_size", .array (m.blockWeights.map .ofFloats)),
    ("block_cut_size", .array (m.blockCuts.map .ofFloats)),
    ("block_imbalance", .array (m.blockImbalance.map .ofFloats))]

def mapJson (l : Level Float) : Json :=
  .record [("parents", .array (l.origins.map fun o => .ofNats o.parents)),
    ("virtual_nodes",
      .ofNats ((l.origins.zipIdx.filter (·.1.isVirtual)).map (·.2)))]

/-- Writes a report. Reports make the folders on their way; graphs and partitions do not. -/
def saveReport (f : Folder) (path : String) (report : Json) : Except Failure Folder :=
  (f.deliver path report.pretty).mapError .inaccessible

def description (o : Overview Float) (digest : String) (asJson : Bool) : String :=
  if asJson then
    (Json.record [("summary", o.toJson), ("canonical_hash", .ofString digest)]).sortKeys.pretty
      ++ "\n"
  else o.text ++ "canonical hash: " ++ digest ++ "\n"

section
variable {α : Type} [Numeral α]

def compressFile [One α] [Add α] (f : Folder) (factors : Factors α) (graph out : String) :
    Except Failure Folder := do
  let g ← check (f.readGraph graph factors)
  check (f.saveGraph out (← check g.compressed))

def evaluateFile [Zero α] [One α] [Neg α] [Add α] [Sub α] [Mul α] [Div α] [NatCast α] [LE α]
    [DecidableLE α] [Gauge α] (f : Folder) (factors : Factors α) (graph partition : String) :
    Except Failure (Metrics α) := do
  let g ← check (f.readGraph graph factors)
  check (metrics g (← check (f.readPartition partition)))

def coarsenFile [Zero α] [One α] [Add α] (f : Folder) (factors : Factors α) (graph : String)
    (clusters : Clusters) (out : String) : Except Failure (Level α × Folder) := do
  let g ← check (f.readGraph graph factors)
  let child ← loadChild f g clusters
  return (child, ← check (f.saveGraph out child.graph))

/-- Writes the partition that follows from one of the child that clusters make of the graph of a
file. -/
def projectFile [Zero α] [One α] [Add α] (f : Folder) (factors : Factors α) (graph : String)
    (clusters : Clusters) (partition out : String) : Except Failure Folder := do
  let g ← check (f.readGraph graph factors)
  let child ← loadChild f g clusters
  let p ← check (f.readPartition partition)
  check (f.savePartition out (← check (child.expand p)))

end

def Command.run (f : Folder) : Command → Except Failure Outcome
  | .info input asJson histogram => do
    let g ← check (f.readGraph input.graph (← loadFactors f input.settings))
    let overview ← check (Overview.of g histogram)
    return { output := description overview g.digest asJson, folder := f }
  | .compress input out => do
    return { folder := ← compressFile f (← loadFactors f input.settings) input.graph out }
  | .evaluate input partition out => do
    let report ← evaluateFile f (← loadFactors f input.settings) input.graph partition
    match out with
    | none => return { output := report.toJson.pretty ++ "\n", folder := f }
    | some path => return { folder := ← saveReport f path report.toJson }
  | .coarsen input clusters out map => do
    let (child, f) ← coarsenFile f (← loadFactors f input.settings) input.graph clusters out
    match map with
    | none => return { folder := f }
    | some path => return { folder := ← saveReport f path (mapJson child) }
  | .project input clusters partition out => do
    let factors ← loadFactors f input.settings
    return { folder := ← projectFile f factors input.graph clusters partition out }

def run (f : Folder) (arguments : List String) : Except Failure Outcome :=
  match parse? arguments with
  | none => .error .usage
  | some command => command.run f

end Multilevel.CommandLine
