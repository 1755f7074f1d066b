import Multilevel.Proofs.InPlace
import Multilevel.Proofs.Level.Cut

/-!
# Writing back

A call that writes a child's results over those of its parent works on the parent's entries where
they lie: `update` spells it out as the checks and the single writes it makes. It stops before the
first write or not at all (`WellFormed.update_on`). No two nodes of a child stand for one parent
node, so the order of the writes does not matter, and the entries afterwards are told by what the
nodes stand for alone (`Overwritten`).
-/
namespace Multilevel.Level

variable {α β γ : Type}

/-! ### Entries written where they lie -/

abbrev Update (β γ : Type) := InPlace (List β) γ

namespace Update

def store (n : Nat) (value : β) : Update β Unit := do
  let entries ← get
  if n < entries.length then set (entries.set n value)
  else throw (.missing n entries.length)

theorem store_on {entries : List β} {n : Nat} (inside : n < entries.length) (value : β) :
    (store n value).on entries = (.ok (), entries.set n value) := by
  simp only [store, InPlace.on_bind, InPlace.get_on, if_pos inside]
  rfl

end Update

/-- Writes the value of each node over the entries of the nodes it stands for, once both lengths
are found to fit. -/
def update (l : Level α) (what : Carried) (values : List β) : Update β Unit := do
  let parent ← InPlace.reported (l.target values.length)
  let entries ← get
  InPlace.reported (checkLength what parent.graph.nodeCount entries.length)
  forM (l.origins.zip values) fun (origin, value) =>
    forM origin.parents fun n => Update.store n value

def updatePartition (l : Level α) (p : Partition) : Update (Option BlockId) Unit :=
  l.update .parentPartition p

def updateLocations (l : Level α) (locations : List Location) : Update Location Unit :=
  l.update .parentLocations locations

theorem forM_store_on {origins : List Origin} {values entries : List β}
    (known : ∀ o ∈ origins, ∀ n ∈ o.parents, n < entries.length) :
    InPlace.on (forM (origins.zip values) fun (origin, value) =>
      forM origin.parents fun n => Update.store n value) entries =
        (.ok (), spread origins values entries) := by
  refine (InPlace.forM_on (·.length = entries.length) (fun (o, v) present t length => ?_) rfl).1
  refine InPlace.forM_on (·.length = entries.length)
    (fun n listed t length => ⟨Update.store_on ?_ v, ?_⟩) length
  · rw [length]
    exact known o (List.of_mem_zip present).1 n listed
  · rw [List.length_set, length]

theorem writeBack_ok {l : Level α} {what : Carried} {values target after : List β} :
    l.writeBack what values target = .ok after ↔ ∃ parent, l.parent? = some parent ∧
      values.length = l.graph.nodeCount ∧ target.length = parent.graph.nodeCount ∧
      after = spread l.origins values target := by
  rw [writeBack, bind_ok]
  refine exists_congr fun parent => ?_
  rw [target_ok, bind_ok, Unique.exists_iff, checkLength_ok, pure_ok, and_assoc,
    eq_comm (a := spread l.origins values target)]

/-- A refused call has written nothing. -/
theorem WellFormed.update_on {l : Level α} (wellFormed : l.WellFormed) (what : Carried)
    (values target : List β) : (l.update what values).on target =
      match l.writeBack what values target with
      | .ok after => (.ok (), after)
      | .error fault => (.error (.fault fault), target) := by
  simp only [update, InPlace.on_bind, InPlace.reported_on, InPlace.get_on]
  cases found : l.target values.length with
  | error fault =>
    have refused : l.writeBack what values target = .error fault := bind_error.mpr (.inl found)
    rw [refused]
    rfl
  | ok parent =>
    simp only [Except.mapError]
    cases fits : checkLength what parent.graph.nodeCount target.length with
    | error fault =>
      have refused : l.writeBack what values target = .error fault :=
        bind_error.mpr (.inr ⟨parent, found, bind_error.mpr (.inl fits)⟩)
      rw [refused]
    | ok =>
      -- every listed parent is a node of the parent, so no write misses the entries
      obtain ⟨above, length⟩ := target_ok.mp found
      have size := checkLength_ok.mp fits
      have known : ∀ o ∈ l.origins, ∀ n ∈ o.parents, n < target.length := by
        rw [size]
        exact (wellFormed.child parent above).known
      rw [writeBack_ok.mpr ⟨parent, above, length, size, rfl⟩]
      exact forM_store_on known

/-! ### Entries afterwards -/

/-- Entries of parent nodes after those of the nodes of a child are written over them. -/
structure Overwritten (l : Level α) (values before after : List β) : Prop where
  length : after.length = before.length
  covered : ∀ c n, l.Contains c n → ∃ v, values[c]? = some v ∧ after[n]? = some v
  uncovered : ∀ n, (∀ c, ¬ l.Contains c n) → after[n]? = before[n]?

theorem Overwritten.again {l : Level α} {values before after : List β}
    (written : l.Overwritten values before after) : l.Overwritten values after after :=
  ⟨rfl, written.covered, fun _ _ => rfl⟩

theorem Overwritten.unique {l : Level α} {values before first second : List β}
    (left : l.Overwritten values before first) (right : l.Overwritten values before second) :
    first = second := by
  apply List.ext_getElem?
  intro n
  by_cases covered : ∃ c, l.Contains c n
  · obtain ⟨c, contains⟩ := covered
    obtain ⟨v, read, entry⟩ := left.covered c n contains
    obtain ⟨w, again, other⟩ := right.covered c n contains
    rw [entry, other, ← read, again]
  · have outside := not_exists.mp covered
    rw [left.uncovered n outside, right.uncovered n outside]

theorem WellFormed.overwritten_spread {l parent : Level α} (wellFormed : l.WellFormed)
    (above : l.parent? = some parent) {values target : List β}
    (length : values.length = l.graph.nodeCount) (size : target.length = parent.graph.nodeCount) :
    l.Overwritten values target (spread l.origins values target) := by
  have lengths : l.origins.length = values.length := wellFormed.origins.trans length.symm
  constructor
  case length => exact length_spread _ _ _
  all_goals simp only [contains_iff_owner wellFormed.once]
  case covered =>
    intro c n own
    obtain ⟨o, read, listed⟩ := mem_of_owner own
    have known := (wellFormed.child parent above).known o (List.mem_of_getElem? read) n listed
    have held : c < values.length := lengths ▸ lt_of_owner own
    refine ⟨values[c], List.getElem?_eq_getElem held, ?_⟩
    rw [getElem?_spread wellFormed.once lengths (by rwa [size]), own, Option.bind_some,
      List.getElem?_eq_getElem held, Option.some_or]
  case uncovered =>
    intro n outside
    have unowned : owner l.origins n = none := by
      cases own : owner l.origins n with
      | none => rfl
      | some c => exact absurd own (outside c)
    rcases Nat.lt_or_ge n target.length with known | beyond
    · rw [getElem?_spread wellFormed.once lengths known, unowned]
      rfl
    · rw [List.getElem?_eq_none beyond, List.getElem?_eq_none (by rwa [length_spread])]

/-! ### Refusals -/

theorem family_of_checkLength {what : Carried} {expected actual : Nat} {fault : Fault}
    (refused : checkLength what expected actual = .error fault) :
    fault.report.family = .propagation := by
  rw [checkLength] at refused
  split at refused
  · cases refused
  · obtain rfl := Except.error.inj refused
    rfl

theorem family_of_target {l : Level α} {length : Nat} {fault : Fault}
    (refused : l.target length = .error fault) : fault.report.family = .propagation := by
  cases l with
  | root =>
    obtain rfl := Except.error.inj refused
    rfl
  | child =>
    rcases bind_error.mp refused with mismatch | ⟨_, _, never⟩
    · exact family_of_checkLength mismatch
    · cases never

theorem family_of_writeBack {l : Level α} {what : Carried} {values target : List β} {fault : Fault}
    (refused : l.writeBack what values target = .error fault) :
    fault.report.family = .propagation := by
  rcases bind_error.mp refused with unfit | ⟨parent, -, rest⟩
  · exact family_of_target unfit
  · rcases bind_error.mp rest with mismatch | ⟨_, _, never⟩
    · exact family_of_checkLength mismatch
    · cases never

/-! ### Results of one kind -/

/-- How results of one kind come to the parent: written over those it has, as a value and in place,
or alone, where parent nodes that no node of the child stands for have none. -/
structure CarriesUp (l : Level α) (write : List β → List β → Except Fault (List β))
    (update : List β → Update β Unit) (alone : List β → Except Fault (List (Option γ)))
    (lift : β → Option γ) : Prop where
  writes : ∀ parent, l.parent? = some parent → ∀ values target : List β,
    values.length = l.graph.nodeCount → target.length = parent.graph.nodeCount → ∃ after,
      write values target = .ok after ∧ (update values).on target = (.ok (), after) ∧
      l.Overwritten values target after ∧
      write values after = .ok after ∧ (update values).on after = (.ok (), after)
  expands : ∀ parent, l.parent? = some parent → ∀ values : List β,
    values.length = l.graph.nodeCount → ∃ full, alone values = .ok full ∧
      l.Overwritten (values.map lift) (List.replicate parent.graph.nodeCount none) full
  refuses : ∀ values target : List β,
    (∀ parent, l.parent? = some parent →
      values.length ≠ l.graph.nodeCount ∨ target.length ≠ parent.graph.nodeCount) →
    ∃ fault, fault.report.family = .propagation ∧ write values target = .error fault ∧
      (update values).on target = (.error (.fault fault), target)
  refusesAlone : ∀ values : List β,
    (∀ parent, l.parent? = some parent → values.length ≠ l.graph.nodeCount) →
    ∃ fault, fault.report.family = .propagation ∧ alone values = .error fault

theorem WellFormed.carriesUp_of_shape {l : Level α} (wellFormed : l.WellFormed) (what : Carried)
    {alone : List β → Except Fault (List (Option γ))} {lift : β → Option γ}
    (shape : ∀ values, alone values = do
      let parent ← l.target values.length
      return spread l.origins (values.map lift) (List.replicate parent.graph.nodeCount none)) :
    l.CarriesUp (l.writeBack what) (l.update what) alone lift where
  writes parent above values target length size := by
    have written := wellFormed.overwritten_spread above length size
    have kept := written.length.trans size
    have once : l.writeBack what values target = .ok (spread l.origins values target) :=
      writeBack_ok.mpr ⟨parent, above, length, size, rfl⟩
    have twice : l.writeBack what values (spread l.origins values target) =
        .ok (spread l.origins values target) :=
      writeBack_ok.mpr ⟨parent, above, length, kept,
        written.again.unique (wellFormed.overwritten_spread above length kept)⟩
    refine ⟨_, once, ?_, written, twice, ?_⟩
    · rw [wellFormed.update_on, once]
    · rw [wellFormed.update_on, twice]
  expands parent above values length := by
    rw [shape, target_ok.mpr ⟨above, length⟩]
    exact ⟨_, rfl, wellFormed.overwritten_spread above (by rwa [List.length_map])
      List.length_replicate⟩
  refuses values target unfit := by
    cases called : l.writeBack what values target with
    | ok after =>
      obtain ⟨parent, above, length, size, -⟩ := writeBack_ok.mp called
      rcases unfit parent above with wrong | wrong
      · exact absurd length wrong
      · exact absurd size wrong
    | error fault =>
      refine ⟨fault, family_of_writeBack called, rfl, ?_⟩
      rw [wellFormed.update_on, called]
  refusesAlone values unfit := by
    rw [shape]
    cases called : l.target values.length with
    | ok parent =>
      obtain ⟨above, length⟩ := target_ok.mp called
      exact absurd length (unfit parent above)
    | error fault => exact ⟨fault, family_of_target called, rfl⟩

variable [Zero α] [One α] [Add α]

/-- What is written back reaches exactly the parent nodes that some node of the child stands for,
each of them from one node. A call that does not fit leaves all entries as they were. -/
theorem Reachable.carriesUp {l : Level α} (reached : l.Reachable) :
    (∀ c d n, l.Contains c n → l.Contains d n → c = d) ∧
    l.CarriesUp l.writeBackPartition l.updatePartition l.expand id ∧
    l.CarriesUp l.writeBackLocations l.updateLocations l.expandLocations some := by
  have wellFormed := reached.wellFormed
  have blocks (p : Partition) : l.expand p = do
      let parent ← l.target p.length
      return spread l.origins (p.map id) (List.replicate parent.graph.nodeCount none) := by
    rw [List.map_id]
    rfl
  refine ⟨fun c d n first second => ?_, wellFormed.carriesUp_of_shape .parentPartition blocks,
    wellFormed.carriesUp_of_shape .parentLocations fun _ => rfl⟩
  rw [contains_iff_owner wellFormed.once] at first second
  exact Option.some.inj (first.symm.trans second)

/-- A row whose third node is in no cluster. -/
theorem carriesUp_line : ∃ child : Level Float,
    (ofGraph (.line Float)).coarsen [[1], [3, 0]] = .ok child ∧
    (∀ c d n, child.Contains c n → child.Contains d n → c = d) ∧
    child.CarriesUp child.writeBackPartition child.updatePartition child.expand id ∧
    child.CarriesUp child.writeBackLocations child.updateLocations child.expandLocations some ∧
    (child.updatePartition [some 7, none]).on [some 1, some 2, some 3, some 4] =
      (.ok (), [none, some 7, some 3, none]) ∧
    (child.updatePartition [some 7, none]).on [some 1] =
      (.error (.fault (.lengthMismatch .parentPartition 4 1)), [some 1]) := by
  have made : (ofGraph (.line Float)).coarsen [[1], [3, 0]] = .ok _ := rfl
  obtain ⟨apart, blocks, locations⟩ :=
    Reachable.carriesUp (.coarsen (.ofGraph Hypergraph.reachable_line) made)
  exact ⟨_, made, apart, blocks, locations, rfl, rfl⟩

end Multilevel.Level
