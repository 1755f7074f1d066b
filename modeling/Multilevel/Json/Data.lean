import Multilevel.Json.Record
import Multilevel.Json.Writer
import Multilevel.Dictionary
import Multilevel.Diagnostic
import Multilevel.Grid
import Multilevel.Hypergraph.Overview
import Multilevel.Level.Coarsen

namespace Multilevel

namespace Json

def ofInt (n : Int) : Json := .number n.repr.toList

def ofFloats (values : List Float) : Json := .array (values.map ofFloat)

def ofNats (values : List Nat) : Json := .array (values.map ofNat)

mutual

/-- The value with the members of each object in the order of their keys. -/
def sortKeys : Json → Json
  | .array elements => .array (sortElements elements)
  | .object members => .object (sortMembers members)
  | v => v

def sortElements : List Json → List Json
  | [] => []
  | v :: rest => sortKeys v :: sortElements rest

def sortMembers : List (List Piece × Json) → List (List Piece × Json)
  | [] => []
  | (k, v) :: rest => insertMember k (sortKeys v) (sortMembers rest)

/-- Puts a member in front of the first with a larger key. -/
def insertMember (k : List Piece) (v : Json) :
    List (List Piece × Json) → List (List Piece × Json)
  | [] => [(k, v)]
  | (k', v') :: rest =>
    if (Piece.text? k).getD "" ≤ (Piece.text? k').getD "" then (k, v) :: (k', v') :: rest
    else (k', v') :: insertMember k v rest

end

end Json

open Json

namespace Factors

def toJson (f : Factors Float) : Json :=
  record [("node_weight_factor", ofFloats f.node), ("edge_weight_factor", ofFloats f.edge)]

/-- Factors from JSON. Those that are missing are one factor of one. -/
def ofJson? (v : Json) : Option (Factors Float) := do
  let [node, edge] ← fields? ["node_weight_factor", "edge_weight_factor"] v | none
  return ⟨← node.withDefault? (list? float?) [1], ← edge.withDefault? (list? float?) [1]⟩

end Factors

namespace CoarsenOptions

def toJson (o : CoarsenOptions) : Json :=
  record [("include_virtual_boundary_nodes", .bool o.keepBoundary)]

def ofJson? (v : Json) : Option CoarsenOptions := do
  let [keep] ← fields? ["include_virtual_boundary_nodes"] v | none
  return ⟨← keep.withDefault? bool? false⟩

end CoarsenOptions

namespace Location

def toJson (l : Location) : Json := record [("x", ofInt l.x.toInt), ("y", ofInt l.y.toInt)]

def ofJson? (v : Json) : Option Location := do
  let [x, y] ← fields? ["x", "y"] v | none
  return ⟨← x.required? int32?, ← y.required? int32?⟩

end Location

namespace Bucket

def toJson (b : Bucket Float) : Json :=
  record [("lower", ofFloat b.lower), ("upper", ofFloat b.upper), ("count", ofNat b.count)]

def ofJson? (v : Json) : Option (Bucket Float) := do
  let [lower, upper, count] ← fields? ["lower", "upper", "count"] v | none
  return ⟨← lower.required? float?, ← upper.required? float?, ← count.required? nat?⟩

end Bucket

namespace Spread

def toJson (s : Spread Float) : Json :=
  record ([("count", ofNat s.count), ("min", ofFloat s.least), ("max", ofFloat s.greatest),
      ("mean", ofFloat s.mean), ("std_dev", ofFloat s.deviation)]
    ++ match s.histogram with
      | none => []
      | some buckets => [("histogram", .array (buckets.map Bucket.toJson))])

def ofJson? (v : Json) : Option (Spread Float) := do
  let [count, least, greatest, mean, deviation, histogram] ←
    fields? ["count", "min", "max", "mean", "std_dev", "histogram"] v | none
  return {
    count := ← count.required? nat?
    least := ← least.required? float?
    greatest := ← greatest.required? float?
    mean := ← mean.required? float?
    deviation := ← deviation.required? float?
    histogram := ← histogram.withDefault? (nullable? (list? Bucket.ofJson?)) none }

end Spread

namespace Overview

def toJson (o : Overview Float) : Json :=
  record [("node_count", ofNat o.nodeCount), ("edge_count", ofNat o.edgeCount),
    ("node_weight_factor", ofFloats o.nodeFactor), ("edge_weight_factor", ofFloats o.edgeFactor),
    ("total_node_weight", ofFloats o.totalNodeWeight),
    ("total_edge_weight", ofFloats o.totalEdgeWeight),
    ("scalar_edge_weight", ofFloat o.totalEdgeCost),
    ("node_weights", .array (o.nodeWeights.map Spread.toJson)),
    ("edge_weights", o.edgeCosts.toJson), ("edge_degrees", o.edgeDegrees.toJson)]

def ofJson? (v : Json) : Option (Overview Float) := do
  let [nodeCount, edgeCount, nodeFactor, edgeFactor, totalNodeWeight, totalEdgeWeight,
      totalEdgeCost, nodeWeights, edgeCosts, edgeDegrees] ←
    fields? ["node_count", "edge_count", "node_weight_factor", "edge_weight_factor",
      "total_node_weight", "total_edge_weight", "scalar_edge_weight", "node_weights",
      "edge_weights", "edge_degrees"] v | none
  return {
    nodeCount := ← nodeCount.required? nat?
    edgeCount := ← edgeCount.required? nat?
    nodeFactor := ← nodeFactor.required? (list? float?)
    edgeFactor := ← edgeFactor.required? (list? float?)
    totalNodeWeight := ← totalNodeWeight.required? (list? float?)
    totalEdgeWeight := ← totalEdgeWeight.required? (list? float?)
    totalEdgeCost := ← totalEdgeCost.required? float?
    nodeWeights := ← nodeWeights.required? (list? Spread.ofJson?)
    edgeCosts := ← edgeCosts.required? Spread.ofJson?
    edgeDegrees := ← edgeDegrees.required? Spread.ofJson? }

end Overview

namespace Detail

def toJson (d : Detail) : Json :=
  record ([("code", ofString d.code), ("message", ofString d.message),
      ("context", record (d.context.map fun (k, v) => (k, ofString v)))]
    ++ match d.hint with
      | none => []
      | some hint => [("hint", ofString hint)])

/-- Details from JSON. Of facts with one name the last counts. -/
def ofJson? (v : Json) : Option Detail := do
  let [code, message, context, hint] ← fields? ["code", "message", "context", "hint"] v | none
  return {
    code := ← code.required? string?
    message := ← message.required? string?
    context := Dictionary.ofList (← context.withDefault? (entries? string?) [])
    hint := ← hint.optional? string? }

end Detail

namespace Diagnostic

def toJson (d : Diagnostic) : Json :=
  record [("family", ofString d.family.name), ("detail", d.detail.toJson)]

/-- How deeply details may be nested that come before their family is known. -/
def heldDepth : Nat := 127

/-- The details of an object. Those that come before the family are held until it is known, and
must not hold anything that cannot be read without it. -/
def detailMember? (members : List (String × Json)) : Option Json := do
  let [detail] := valuesOf members "detail" | none
  let familyFirst := (members.map (·.1)).find? (fun k => k = "family" || k = "detail") = "family"
  if familyFirst || holdable heldDepth detail then return detail else none

/-- A family from JSON: its name, or an object with `null` under the name. -/
def family? : Json → Option Family
  | .object [(name, .null)] => (Piece.text? name).bind Family.ofName?
  | v => (string? v).bind Family.ofName?

/-- A diagnostic from JSON: an object with the two members in either order, or a pair. In a pair
the family is only a name. -/
def ofJson? : Json → Option Diagnostic
  | .object members => do
    let members ← members.mapM fun (k, v) => do return (← Piece.text? k, v)
    let [family] := valuesOf members "family" | none
    let detail ← detailMember? members
    return ⟨← family? family, ← Detail.ofJson? detail⟩
  | .array [family, detail] => do
    return ⟨← Family.ofName? (← string? family), ← Detail.ofJson? detail⟩
  | _ => none

end Diagnostic
end Multilevel
