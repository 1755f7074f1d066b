import Multilevel.Proofs.Hypergraph.Strict

/-!
# Calls in place

A call that changes a value where it lies reads it, checks it and writes to it in steps, and a step
may stop the call half way. `InPlace.on` tells how a call ends together with what it leaves behind.
Most writes go to single entries of a list that is part of the value (`Part`).
-/
namespace Multilevel

/-- A computation over a state that it may write to. What it wrote before a stop stays written. -/
abbrev InPlace (σ γ : Type) := ExceptT Hypergraph.Stop (StateM σ) γ

namespace InPlace

variable {σ γ δ : Type}

def on (u : InPlace σ γ) (s : σ) : Except Hypergraph.Stop γ × σ := u.run.run s

def reported (x : Except Fault γ) : InPlace σ γ := ExceptT.mk (pure (x.mapError .fault))

theorem on_bind (u : InPlace σ γ) (f : γ → InPlace σ δ) (s : σ) :
    (u >>= f).on s =
      match u.on s with
      | (.ok a, next) => (f a).on next
      | (.error stop, next) => (.error stop, next) := by
  change (match u s with
    | (x, next) => ExceptT.bindCont (m := StateM σ) f x next) = _
  rw [on]
  change _ = match u s with
    | (.ok a, next) => (f a).on next
    | (.error stop, next) => (.error stop, next)
  rcases u s with ⟨_ | _, _⟩ <;> rfl

theorem reported_on (x : Except Fault γ) (s : σ) :
    (reported x).on s = (x.mapError .fault, s) := rfl

theorem get_on (s : σ) : (get : InPlace σ σ).on s = (.ok s, s) := rfl

theorem modify_on (f : σ → σ) (s : σ) : (modify f : InPlace σ PUnit).on s = (.ok ⟨⟩, f s) := rfl

theorem forM_on {f : γ → InPlace σ Unit} {g : σ → γ → σ} (Holds : σ → Prop) {xs : List γ}
    (round : ∀ x ∈ xs, ∀ s, Holds s → (f x).on s = (.ok (), g s x) ∧ Holds (g s x))
    {s : σ} (initial : Holds s) :
    (forM xs f).on s = (.ok (), xs.foldl g s) ∧ Holds (xs.foldl g s) := by
  induction xs generalizing s with
  | nil => exact ⟨rfl, initial⟩
  | cons x xs ih =>
    obtain ⟨first, kept⟩ := round x List.mem_cons_self s initial
    rw [List.forM_cons, on_bind, first]
    exact ih (fun y member => round y (List.mem_cons_of_mem _ member)) kept

end InPlace

/-! ### Entries of lists -/

/-- A list inside a state. -/
structure Part (σ β : Type) where
  read : σ → List β
  replace : σ → List β → σ
  read_replace : ∀ s xs, read (replace s xs) = xs
  replace_read : ∀ s, replace s (read s) = s
  replace_replace : ∀ s xs ys, replace (replace s xs) ys = replace s ys

/-- Entries that are modified once each, at some positions. -/
theorem foldl_modify {β : Type} {positions : List Nat} (once : positions.Nodup) (f : β → β)
    (xs : List β) : positions.foldl (fun xs i => xs.modify i f) xs =
      xs.mapIdx fun i x => if i ∈ positions then f x else x := by
  induction positions generalizing xs with
  | nil =>
    apply List.ext_getElem?
    simp
  | cons i positions ih =>
    obtain ⟨fresh, once⟩ := List.nodup_cons.mp once
    rw [List.foldl_cons, ih once]
    apply List.ext_getElem?
    intro j
    rw [List.getElem?_mapIdx, List.getElem?_mapIdx, List.getElem?_modify]
    by_cases same : i = j
    · subst same
      cases xs[i]? <;> simp [fresh]
    · cases xs[j]? <;> simp [same, Ne.symm same]

namespace Part

variable {σ β : Type} (part : Part σ β) (write : β → β)

/-- Writes to an entry, which has to be there. -/
def writeAt (i : Nat) : InPlace σ Unit := do
  let s ← get
  if i < (part.read s).length then set (part.replace s ((part.read s).modify i write))
  else throw (.missing i (part.read s).length)

theorem writeAt_on {s : σ} {i : Nat} (known : i < (part.read s).length) :
    (part.writeAt write i).on s = (.ok (), part.replace s ((part.read s).modify i write)) := by
  simp only [writeAt, InPlace.on_bind, InPlace.get_on, if_pos known]
  rfl

theorem forM_writeAt_on {positions : List Nat} (once : positions.Nodup) {s : σ}
    (known : ∀ i ∈ positions, i < (part.read s).length) :
    InPlace.on (forM positions (part.writeAt write)) s = (.ok (), part.replace s
      ((part.read s).mapIdx fun i x => if i ∈ positions then write x else x)) := by
  have loop := InPlace.forM_on (fun t => (part.read t).length = (part.read s).length)
    (fun i member t length => ⟨part.writeAt_on write (length ▸ known i member),
      by rw [part.read_replace, List.length_modify, length]⟩) rfl
  have writes : positions.foldl (fun t i => part.replace t ((part.read t).modify i write))
      (part.replace s (part.read s)) =
        part.replace s (positions.foldl (fun xs i => xs.modify i write) (part.read s)) :=
    List.foldl_hom (part.replace s) fun xs i => by rw [part.read_replace, part.replace_replace]
  rw [part.replace_read] at writes
  rw [loop.1, writes, foldl_modify once]

theorem forM_writeAt_range_on (s : σ) :
    InPlace.on (forM (List.range (part.read s).length) (part.writeAt write)) s =
      (.ok (), part.replace s ((part.read s).map write)) := by
  have all : ((part.read s).mapIdx fun i x => if i ∈ List.range (part.read s).length then write x
      else x) = (part.read s).map write := by
    apply List.ext_getElem?
    intro i
    rw [List.getElem?_mapIdx, List.getElem?_map]
    cases read : (part.read s)[i]? with
    | none => rfl
    | some x => simp [(List.getElem?_eq_some_iff.mp read).1]
  rw [part.forM_writeAt_on write List.nodup_range fun i => List.mem_range.mp, all]

end Part
end Multilevel
