import Multilevel.Proofs.Decimal.Parts
import Multilevel.Proofs.Hypergraph.Digest

/-!
# Binary snapshots restore graphs

Every part of a snapshot can be taken off the front of any bytes, so the reader is at the right
place after each. The parts are those the graph was made of, and a graph can be assembled from its
parts: nothing is rejected, and the incidence that is not written comes out as it was.
-/
namespace Multilevel

/-! ### Scalars as bits -/

/-- Scalars that their bits tell apart. -/
class Lossless (α : Type) [Stored α] : Prop where
  ofBits_bits (x : α) : Stored.ofBits (Stored.bits x) = x

instance : Lossless Float := ⟨Decimal.ofBits_toBits⟩

/-- The bits of a double precision number, whichever of the patterns that are no number they may
be. -/
structure Pattern where
  bits : UInt64
  deriving DecidableEq

instance : Stored Pattern where
  bits := Pattern.bits
  ofBits := Pattern.mk

instance : Lossless Pattern := ⟨fun _ => rfl⟩

instance : One Pattern := ⟨⟨0x3ff0000000000000⟩⟩

namespace Snapshot

variable {α : Type} [Stored α] [Lossless α] {g : Hypergraph α}

theorem restores_scalar (x : α) : Restores readScalar scalarBytes x := by
  intro rest
  have bits := restores_natBytes (Stored.bits x).toNat_lt rest
  simp [readScalar, scalarBytes, bits, Lossless.ofBits_bits]

theorem restores_scalars {values : List α} (length : values.length < 2 ^ 64) :
    Restores (readList readScalar) (listBytes scalarBytes) values :=
  restores_listBytes length fun x _ => restores_scalar x

/-! ### Parts of a graph -/

theorem restores_nodes (wellFormed : g.WellFormed) (writable : g.Writable) :
    Restores (readList (readList readScalar)) (listBytes (listBytes scalarBytes))
      (g.nodes.map Node.weights) := by
  refine restores_listBytes ?_ (List.forall_mem_map.mpr fun n member => restores_scalars ?_)
  · rw [List.length_map]
    exact writable.nodeCount
  · rw [wellFormed.nodeWeights n member]
    exact writable.nodeDim

theorem restores_edge {dim count : Nat} {e : Edge α} (wellFormed : e.WellFormed dim count)
    (narrow : dim < 2 ^ 64) (few : count < 2 ^ 64) : Restores readEdge edgeBytes e := by
  have members : Restores (readList readNat) (listBytes natBytes) e.members :=
    restores_numbers (Nat.lt_of_le_of_lt wellFormed.length_members_le few)
      fun n listed => Nat.lt_trans (wellFormed.known n listed) few
  have weights := restores_scalars (wellFormed.weights ▸ narrow)
  intro rest
  rw [readEdge, edgeBytes, List.append_assoc]
  simp [StateT.run_bind, members _, weights _]

theorem restores_edges (wellFormed : g.WellFormed) (writable : g.Writable) :
    Restores (readList readEdge) (listBytes edgeBytes) g.edges :=
  restores_listBytes writable.edgeCount fun e member =>
    restores_edge (wellFormed.edges e member) writable.edgeDim writable.nodeCount

theorem run_readContent (wellFormed : g.WellFormed) (writable : g.Writable) (rest : List UInt8) :
    readContent.run (write g ++ rest) =
      some (⟨g.factors, g.nodes.map Node.weights, g.edges⟩, rest) := by
  have node := restores_scalars writable.nodeDim
  have edge := restores_scalars writable.edgeDim
  have nodes := restores_nodes wellFormed writable
  have edges := restores_edges wellFormed writable
  have rows : listBytes (fun n : Node α => listBytes scalarBytes n.weights) g.nodes =
      listBytes (listBytes scalarBytes) (g.nodes.map Node.weights) := (listBytes_map _ _ _).symm
  rw [readContent, write, rows]
  simp [StateT.run_bind, node _, edge _, nodes _, edges _]

/-- A graph can be read back from its bytes as it was, whatever bytes follow them. -/
theorem read_write [One α] (reached : g.Reachable) (writable : g.Writable)
    (rest : List UInt8) : read (write g ++ rest) = .ok g := by
  rw [read, run_readContent reached.wellFormed writable]
  exact reached.wellFormed.assemble_parts

/-- Patterns of different payloads that are no number, an infinity and a negative zero. -/
def odd : Hypergraph Pattern :=
  .ofParts ⟨[⟨0x7ff0000000000001⟩, ⟨0xfff8000000000000⟩], [⟨0x7ff0000000000000⟩]⟩
    [[⟨0x7fffffffffffffff⟩, ⟨0x8000000000000000⟩], [⟨0x3ff0000000000000⟩, ⟨1⟩]]
    [⟨[⟨0xfff0000000000001⟩], [0, 1]⟩]

theorem read_write_odd : read (write odd) = .ok odd ∧
    read (write (Hypergraph.line Float) ++ [0]) = .ok (Hypergraph.line Float) := by
  have made : Hypergraph.assemble
      ⟨[⟨0x7ff0000000000001⟩, ⟨0xfff8000000000000⟩], [⟨0x7ff0000000000000⟩]⟩
      [[⟨0x7fffffffffffffff⟩, ⟨0x8000000000000000⟩], [⟨0x3ff0000000000000⟩, ⟨1⟩]]
      [⟨[⟨0xfff0000000000001⟩], [0, 1]⟩] = .ok odd := rfl
  have plain := read_write (Hypergraph.reachable_of_assemble made)
    ⟨by decide, by decide, by decide, by decide⟩ []
  rw [List.append_nil] at plain
  exact ⟨plain, read_write Hypergraph.reachable_line
    ⟨by decide, by decide, by decide, by decide⟩ [0]⟩

end Snapshot
end Multilevel
