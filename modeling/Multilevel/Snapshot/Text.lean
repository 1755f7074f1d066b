import Multilevel.Snapshot.Bytes
import Multilevel.Json.Reader
import Multilevel.Json.Data

namespace Multilevel.Snapshot

open Json

def edgeJson (e : Edge Float) : Json :=
  record [("members", ofNats e.members), ("weights", ofFloats e.weights)]

def json (g : Hypergraph Float) : Json :=
  record [("config", g.factors.toJson),
    ("nodes", .array (g.nodes.map fun n => ofFloats n.weights)),
    ("edges", .array (g.edges.map edgeJson))]

def writeText (g : Hypergraph Float) : String := (json g).pretty

def edgeOfJson? (v : Json) : Option (Edge Float) := do
  let [members, weights] ← fields? ["members", "weights"] v | none
  return {
    members := ← members.required? (list? nat?)
    weights := ← weights.required? (list? float?) }

def contentOfJson? (v : Json) : Option (Content Float) := do
  let [config, nodes, edges] ← fields? ["config", "nodes", "edges"] v | none
  return ⟨← config.required? Factors.ofJson?, ← nodes.required? (list? (list? float?)),
    ← edges.required? (list? edgeOfJson?)⟩

def readText (text : String) : Except Fault (Hypergraph Float) :=
  match (Json.read? text).bind contentOfJson? with
  | none => .error (.undecodable .json)
  | some content => Hypergraph.assemble content.factors content.nodes content.edges

end Multilevel.Snapshot
