import Multilevel.Snapshot.Bytes
import Multilevel.Sha256

/-!
# Digests

A fingerprint of a graph that does not depend on the order of its edges. It covers the factors,
the node weights in node order, and the edges in an order of their own: by members, then by the
bits of their weights.
-/
namespace Multilevel.Hypergraph

open Snapshot

variable {α : Type}

/-- What the digest takes of an edge: its members and the bits of its weights. -/
abbrev Signature := List Nat × List Nat

def signature [Stored α] (e : Edge α) : Signature :=
  (e.members, e.weights.map fun w => (Stored.bits w).toNat)

def before (a b : List Nat) : Bool := a.lex b fun m n => decide (m < n)

/-- Signatures are ordered by members, then by weights. -/
def signatureLe (s t : Signature) : Bool :=
  before s.1 t.1 || (s.1 == t.1 && !before t.2 s.2)

def asciiBytes (s : String) : List UInt8 := s.toList.map fun c => UInt8.ofNat c.toNat

def digestBytes [Stored α] (g : Hypergraph α) : List UInt8 :=
  asciiBytes "node-factor" ++ listBytes scalarBytes g.factors.node
    ++ asciiBytes "edge-factor" ++ listBytes scalarBytes g.factors.edge
    ++ listBytes (fun n => listBytes scalarBytes n.weights) g.nodes
    ++ listBytes (fun s => listBytes natBytes s.1 ++ listBytes natBytes s.2)
      ((g.edges.map signature).mergeSort signatureLe)

def digest [Stored α] (g : Hypergraph α) : String := Sha256.hex (digestBytes g)

end Multilevel.Hypergraph
