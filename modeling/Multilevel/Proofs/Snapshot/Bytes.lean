import Mathlib.Algebra.Group.Nat.Defs
import Mathlib.Data.List.Basic
import Multilevel.Snapshot.Bytes

namespace Multilevel.Snapshot

variable {α β γ : Type}

/-- A reader gives a value back, and the bytes behind it. -/
def Restores (read : Reader β) (write : β → List UInt8) (b : β) : Prop :=
  ∀ rest, read.run (write b ++ rest) = some (b, rest)

theorem Restores.split {read : Reader β} {write : β → List UInt8} {b c : β} {rest others : List UInt8}
    (left : Restores read write b) (right : Restores read write c)
    (same : write b ++ rest = write c ++ others) : b = c ∧ rest = others := by
  have reading : some (b, rest) = some (c, others) := by
    rw [← left rest, same, right others]
  simpa using reading

theorem Restores.unique {read : Reader β} {write : β → List UInt8} {b c : β}
    (left : Restores read write b) (right : Restores read write c) (same : write b = write c) :
    b = c :=
  (left.split right (congrArg (· ++ []) same)).1

theorem Restores.pair {read : Reader β} {write : β → List UInt8} {readNext : Reader γ}
    {writeNext : γ → List UInt8} {b : β} {c : γ} (first : Restores read write b)
    (second : Restores readNext writeNext c) :
    Restores (do let b ← read; return (b, ← readNext)) (fun p => write p.1 ++ writeNext p.2)
      (b, c) := by
  intro rest
  rw [List.append_assoc]
  simp [StateT.run_bind, first _, second _]

theorem run_readLittleEndian {count n : Nat} (small : n < 256 ^ count) (rest : List UInt8) :
    (readLittleEndian count).run (littleEndian count n ++ rest) = some (n, rest) := by
  induction count generalizing n with
  | zero =>
    obtain rfl : n = 0 := by simpa using small
    rfl
  | succ count ih =>
    have higher : n / 256 < 256 ^ count := by
      rw [Nat.pow_succ] at small
      omega
    rw [readLittleEndian, littleEndian, List.cons_append]
    simpa [StateT.run_bind, ih higher] using Nat.mod_add_div n 256

theorem restores_natBytes {n : Nat} (small : n < 2 ^ 64) : Restores readNat natBytes n := by
  have fits : n < 256 ^ 8 := by omega
  intro rest
  exact run_readLittleEndian fits rest

theorem run_readTimes {read : Reader β} {write : β → List UInt8} {elements : List β}
    (each : ∀ b ∈ elements, Restores read write b) (rest : List UInt8) :
    (readTimes read elements.length).run (elements.flatMap write ++ rest) =
      some (elements, rest) := by
  induction elements with
  | nil => rfl
  | cons b elements ih =>
    obtain ⟨first, others⟩ := List.forall_mem_cons.mp each
    rw [List.length_cons, readTimes, List.flatMap_cons, List.append_assoc]
    simp [StateT.run_bind, first _, ih others]

theorem restores_listBytes {read : Reader β} {write : β → List UInt8} {elements : List β}
    (length : elements.length < 2 ^ 64) (each : ∀ b ∈ elements, Restores read write b) :
    Restores (readList read) (listBytes write) elements := by
  intro rest
  rw [readList, listBytes, List.append_assoc, StateT.run_bind, restores_natBytes length]
  exact run_readTimes each rest

theorem restores_numbers {numbers : List Nat} (length : numbers.length < 2 ^ 64)
    (small : ∀ n ∈ numbers, n < 2 ^ 64) :
    Restores (readList readNat) (listBytes natBytes) numbers :=
  restores_listBytes length fun n member => restores_natBytes (small n member)

theorem listBytes_map (write : γ → List UInt8) (f : β → γ) (elements : List β) :
    listBytes write (elements.map f) = listBytes (fun b => write (f b)) elements := by
  rw [listBytes, listBytes, List.length_map, List.flatMap_map]

end Multilevel.Snapshot
