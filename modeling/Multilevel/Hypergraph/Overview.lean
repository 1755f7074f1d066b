import Multilevel.Hypergraph.Basic
import Multilevel.Sample
import Multilevel.Decimal.Fixed
import Multilevel.Decimal.Layout

namespace Multilevel

structure Overview (α : Type) where
  nodeCount : Nat
  edgeCount : Nat
  nodeFactor : List α
  edgeFactor : List α
  totalNodeWeight : List α
  totalEdgeWeight : List α
  totalEdgeCost : α
  /-- The spread of the node weights in each dimension. -/
  nodeWeights : List (Spread α)
  edgeCosts : Spread α
  edgeDegrees : Spread α
  deriving DecidableEq

namespace Overview

def buckets : Nat := 10

section
variable {α : Type} [Zero α] [Neg α] [Add α] [Sub α] [Mul α] [Div α] [NatCast α]
  [LE α] [DecidableLE α] [LT α] [DecidableLT α] [Gauge α]

def spread (histograms : Bool) (values : List α) : Spread α :=
  if histograms then .withHistogram values buckets else .of values

def of (g : Hypergraph α) (histograms : Bool) : Except Fault (Overview α) := do
  let costs ← (List.range g.edgeCount).mapM g.costOfEdge
  let totalEdgeWeight ← g.totalEdgeWeight
  return {
    nodeCount := g.nodeCount
    edgeCount := g.edgeCount
    nodeFactor := g.factors.node
    edgeFactor := g.factors.edge
    totalNodeWeight := ← g.totalNodeWeight
    totalEdgeWeight
    totalEdgeCost := ← g.edgeCost totalEdgeWeight
    nodeWeights := (List.range g.nodeDim).map fun d =>
      spread histograms (g.nodes.filterMap (·.weights[d]?))
    edgeCosts := spread histograms costs
    edgeDegrees := spread histograms (g.edges.map fun e => (e.members.length : α)) }

end

def listText (values : List Float) : String :=
  "[" ++ ", ".intercalate (values.map Decimal.marked.string) ++ "]"

def spreadText (label : String) (s : Spread Float) : String :=
  label ++ ": min=" ++ Decimal.plain.string s.least ++ " max=" ++ Decimal.plain.string s.greatest
    ++ " mean=" ++ Decimal.fixedText 3 s.mean ++ " std=" ++ Decimal.fixedText 3 s.deviation ++ "\n"
    ++ String.join ((s.histogram.getD []).map fun b =>
      "  [" ++ Decimal.fixedText 3 b.lower ++ ", " ++ Decimal.fixedText 3 b.upper ++ "): "
        ++ b.count.repr ++ "\n")

def text (o : Overview Float) : String :=
  "nodes: " ++ o.nodeCount.repr ++ "\n"
    ++ "edges: " ++ o.edgeCount.repr ++ "\n"
    ++ "node weight factor: " ++ listText o.nodeFactor ++ "\n"
    ++ "edge weight factor: " ++ listText o.edgeFactor ++ "\n"
    ++ "total node weight: " ++ listText o.totalNodeWeight ++ "\n"
    ++ "total edge weight: " ++ listText o.totalEdgeWeight
    ++ " (scalar " ++ Decimal.plain.string o.totalEdgeCost ++ ")\n"
    ++ String.join (o.nodeWeights.mapIdx fun d s =>
      spreadText ("node weight[" ++ d.repr ++ "]") s)
    ++ spreadText "edge weight" o.edgeCosts
    ++ spreadText "edge degree" o.edgeDegrees

end Overview
end Multilevel
