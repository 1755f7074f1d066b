import Multilevel.Diagnostic

/-!
# Faults

Why an operation of the library refuses its arguments. A fault says what went wrong as data;
`Fault.report` is the one place that puts it into words.
-/
namespace Multilevel

abbrev NodeId := Nat

abbrev EdgeId := Nat

abbrev BlockId := Nat

/-- What is wrong with a line of a graph or partition text. -/
inductive Malformed
  | missingHeader
  | malformedHeader
  | malformedFlags (flags : String)
  | invalidToken (token : String)
  | truncatedEdges
  | missingEdgeWeights
  | zeroNodeId
  | truncatedNodes
  | nodeWeightCount (expected actual : Nat)
  | negativeBlock (value : Int)
  deriving DecidableEq, Repr

inductive Measured
  | nodeWeights | edgeWeights | weightVector
  deriving DecidableEq, Repr

inductive Element
  | node | edge
  deriving DecidableEq, Repr

/-- The results that travel between levels. -/
inductive Carried
  | childResult | parentPartition | parentLocations
  deriving DecidableEq, Repr

inductive Encoding
  | json | bytes
  deriving DecidableEq, Repr

inductive Change
  | addNode | addEdge
  deriving DecidableEq, Repr

inductive Fault
  | dimension (what : Measured) (expected actual : Nat)
  | emptyFactor (of : Element)
  | tooFewMembers (members : Nat)
  | unknownMember (node : NodeId) (nodeCount : Nat)
  | unknownNode (node : NodeId)
  | unknownEdge (edge : EdgeId)
  | immutableChild (change : Change) (depth : Nat)
  | tooFewNodes (nodes : Nat)
  | partitionLength (expected actual : Nat)
  | unassignedNode (node : NodeId)
  | zeroBlocks
  | invalidParentBlock (parent : NodeId) (blockCount : Nat)
  | parentOutOfRange (cluster : Nat) (parent : NodeId) (parentNodes : Nat)
  | duplicateMember (parent : NodeId) (first second : Nat)
  | virtualMember (cluster : Nat) (parent : NodeId)
  | ambiguousFixedBlock (cluster : Nat) (blocks : List BlockId)
  | clusterCount (clusters nodes : Nat)
  | rootGraph
  | lengthMismatch (what : Carried) (expected actual : Nat)
  | inconsistentPartition (child : NodeId) (parent : NodeId) (blocks : BlockId × BlockId)
  | malformed (line : Nat) (cause : Malformed)
  | notFound
  | notFolder
  | isFolder
  | alreadyExists
  | notText
  | undecodable (encoding : Encoding)
  | onLine (line : Nat) (cause : Fault)
  | inFile (path : String) (cause : Fault)
  deriving DecidableEq, Repr

namespace Malformed

def code : Malformed → String
  | missingHeader => "missing-header"
  | malformedHeader => "malformed-header"
  | malformedFlags _ => "malformed-flags"
  | invalidToken _ => "invalid-token"
  | truncatedEdges => "truncated-edges"
  | missingEdgeWeights => "missing-edge-weights"
  | zeroNodeId => "zero-node-id"
  | truncatedNodes => "truncated-nodes"
  | nodeWeightCount _ _ => "node-weight-count"
  | negativeBlock _ => "negative-block"

/-- What a report says of the line besides its number. -/
def facts : Malformed → List (String × String)
  | malformedFlags flags => [("flags", flags)]
  | invalidToken token => [("token", token)]
  | nodeWeightCount expected actual => [("expected", expected.repr), ("actual", actual.repr)]
  | negativeBlock value => [("value", value.repr)]
  | _ => []

end Malformed

def Measured.name : Measured → String
  | nodeWeights => "node weights"
  | edgeWeights => "edge weights"
  | weightVector => "weight vector"

def Element.name : Element → String
  | node => "node"
  | edge => "edge"

def Carried.name : Carried → String
  | childResult => "child result"
  | parentPartition => "parent partition"
  | parentLocations => "parent locations"

def Change.name : Change → String
  | addNode => "add-node"
  | addEdge => "add-edge"

def Encoding.code : Encoding → String
  | json => "deserialize-json"
  | bytes => "deserialize-bytes"

namespace Fault

private def describe (family : Family) (code message : String)
    (facts : List (String × String) := []) : Diagnostic :=
  ⟨family, { code, message, context := Dictionary.ofList facts }⟩

def report : Fault → Diagnostic
  | dimension what expected actual => .dimensionMismatch what.name expected actual
  | emptyFactor kind =>
    describe .dimension "empty-weight-factor" "weight factor vectors must not be empty"
      [("kind", kind.name)]
  | tooFewMembers members =>
    describe .invalidEdge "too-few-members" "hyperedges require at least two distinct members"
      [("members", members.repr)]
  | unknownMember node nodeCount =>
    describe .invalidEdge "unknown-member" "hyperedge member is not a node of the graph"
      [("node", node.repr), ("node_count", nodeCount.repr)]
  | unknownNode node =>
    describe .graph "unknown-node" "node does not exist" [("node", node.repr)]
  | unknownEdge edge =>
    describe .graph "unknown-edge" "edge does not exist" [("edge", edge.repr)]
  | immutableChild change depth =>
    describe .graph "immutable-child" "only root graphs accept structural changes"
      [("operation", change.name), ("level", depth.repr)]
  | tooFewNodes nodes =>
    describe .graph "too-few-nodes" "random edges require at least two nodes"
      [("nodes", nodes.repr)]
  | partitionLength expected actual =>
    describe .partition "partition-length" "partition result must cover every node of the graph"
      [("expected", expected.repr), ("actual", actual.repr)]
  | unassignedNode node =>
    describe .partition "unassigned-node" "block sizes require every node assigned"
      [("node", node.repr)]
  | zeroBlocks =>
    describe .clustering "zero-blocks"
      "block-disaggregated clustering requires at least one block"
  | invalidParentBlock parent blockCount =>
    describe .clustering "invalid-parent-block"
      "clustered parent node needs a block id below the block count"
      [("parent", parent.repr), ("block_count", blockCount.repr)]
  | parentOutOfRange cluster parent parentNodes =>
    describe .clustering "parent-out-of-range" "cluster member is not a parent node"
      [("cluster", cluster.repr), ("parent", parent.repr), ("parent_nodes", parentNodes.repr)]
  | duplicateMember parent first second =>
    describe .clustering "duplicate-member" "parent node is included in more than one cluster"
      [("parent", parent.repr), ("first_cluster", first.repr), ("second_cluster", second.repr)]
  | virtualMember cluster parent =>
    describe .clustering "virtual-member" "virtual boundary nodes cannot be clustered"
      [("cluster", cluster.repr), ("parent", parent.repr)]
  | ambiguousFixedBlock cluster blocks =>
    describe .clustering "ambiguous-fixed-block"
      "parents of one cluster are fixed to different blocks"
      [("cluster", cluster.repr), ("blocks", ",".intercalate (blocks.map Nat.repr))]
  | clusterCount clusters nodes =>
    describe .clustering "cluster-count"
      "cluster count must be between one and the node count"
      [("clusters", clusters.repr), ("nodes", nodes.repr)]
  | rootGraph =>
    describe .propagation "root-graph"
      "a root graph has no parent level to propagate to or from"
  | lengthMismatch what expected actual =>
    describe .propagation "length-mismatch" (what.name ++ " has the wrong length")
      [("expected", expected.repr), ("actual", actual.repr)]
  | inconsistentPartition child parent (held, met) =>
    describe .propagation "inconsistent-partition"
      "parent nodes of one child node are assigned to different blocks"
      [("child", child.repr), ("parent", parent.repr), ("blocks", held.repr ++ "," ++ met.repr)]
  | malformed line cause =>
    describe .format cause.code "malformed hMETIS input" (("line", line.repr) :: cause.facts)
  | notFound =>
    describe .io "io" "No such file or directory (os error 2)" [("kind", "NotFound")]
  | notFolder => describe .io "io" "Not a directory (os error 20)" [("kind", "NotADirectory")]
  | isFolder => describe .io "io" "Is a directory (os error 21)" [("kind", "IsADirectory")]
  | alreadyExists => describe .io "io" "File exists (os error 17)" [("kind", "AlreadyExists")]
  | notText =>
    describe .io "io" "stream did not contain valid UTF-8" [("kind", "InvalidData")]
  | undecodable encoding =>
    describe .encoding encoding.code "the snapshot does not describe a graph"
  | onLine line cause => cause.report.withContext "line" line.repr
  | inFile path cause => cause.report.withContext "path" path

end Fault

end Multilevel
