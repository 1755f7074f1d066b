import Multilevel.Dictionary

namespace Multilevel

inductive Family
  | dimension | invalidEdge | graph | partition | clustering | propagation | io | format | encoding
  deriving DecidableEq, Repr

namespace Family

def all : List Family :=
  [dimension, invalidEdge, graph, partition, clustering, propagation, io, format, encoding]

def name : Family → String
  | dimension => "Dimension"
  | invalidEdge => "InvalidEdge"
  | graph => "Graph"
  | partition => "Partition"
  | clustering => "Clustering"
  | propagation => "Propagation"
  | io => "Io"
  | format => "Format"
  | encoding => "Serde"

def heading : Family → String
  | dimension => "dimension error"
  | invalidEdge => "invalid edge"
  | graph => "graph error"
  | partition => "partition error"
  | clustering => "clustering error"
  | propagation => "propagation error"
  | io => "io error"
  | format => "format error"
  | encoding => "serde error"

def ofName? (s : String) : Option Family := all.find? (·.name == s)

end Family

structure Detail where
  code : String
  message : String
  context : Dictionary String String := []
  hint : Option String := none
  deriving DecidableEq

namespace Detail

/-- Records a fact. A fact of the same name gives way to it. -/
def withContext (d : Detail) (key value : String) : Detail :=
  { d with context := Dictionary.put key value d.context }

def withHint (d : Detail) (hint : String) : Detail := { d with hint := some hint }

/-- One line: message and code, then the facts in order of their names, then the hint. -/
def text (d : Detail) : String :=
  d.message ++ " (code: " ++ d.code ++ ")"
    ++ (if d.context.isEmpty then ""
        else " | context: [" ++ ", ".intercalate (d.context.map fun (k, v) => k ++ "=" ++ v) ++ "]")
    ++ (match d.hint with | none => "" | some h => " | hint: " ++ h)

end Detail

structure Diagnostic where
  family : Family
  detail : Detail
  deriving DecidableEq

namespace Diagnostic

def withContext (d : Diagnostic) (key value : String) : Diagnostic :=
  { d with detail := d.detail.withContext key value }

def withHint (d : Diagnostic) (hint : String) : Diagnostic :=
  { d with detail := d.detail.withHint hint }

def text (d : Diagnostic) : String := d.family.heading ++ ": " ++ d.detail.text

def dimensionMismatch (what : String) (expected actual : Nat) : Diagnostic where
  family := .dimension
  detail :=
    (({ code := "dimension-mismatch", message := what ++ " has the wrong dimension" } : Detail)
      |>.withContext "expected" expected.repr).withContext "actual" actual.repr

end Diagnostic

end Multilevel
