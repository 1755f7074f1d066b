import Multilevel.Json.Data
import Multilevel.Proofs.Json.Reader

namespace Multilevel.Json

variable {α β : Type}

theorem chars?_map (s : List Char) : Piece.chars? (s.map .char) = some s := by
  induction s with
  | nil => rfl
  | cons c s ih =>
    rw [List.map_cons, Piece.chars?, ih]
    rfl

theorem text?_ofString (s : String) : Piece.text? (Piece.ofString s) = some s := by
  rw [Piece.text?, Piece.ofString, chars?_map, Option.map_some, String.ofList_toList]

theorem sound_ofString (s : String) : ∀ p ∈ Piece.ofString s, Token.Sound p :=
  List.forall_mem_map.mpr fun _ _ => trivial

theorem list?_map {read : Json → Option β} {write : α → Json} {f : α → β} {xs : List α}
    (each : ∀ x ∈ xs, read (write x) = some (f x)) :
    list? read (.array (xs.map write)) = some (xs.map f) := by
  rw [list?, List.mapM_map]
  exact mapM_eq_pure each

theorem soundElements {elements : List Json} (each : ∀ v ∈ elements, Sound v) :
    SoundElements elements := by
  induction elements with
  | nil => trivial
  | cons v rest ih =>
    obtain ⟨first, others⟩ := List.forall_mem_cons.mp each
    exact ⟨first, ih others⟩

theorem sound_array {write : α → Json} {xs : List α} (each : ∀ x ∈ xs, Sound (write x)) :
    Sound (.array (xs.map write)) :=
  soundElements (List.forall_mem_map.mpr each)

theorem sound_record {members : List (String × Json)} (each : ∀ m ∈ members, Sound m.2) :
    Sound (record members) := by
  show SoundMembers (members.map fun m => (Piece.ofString m.1, m.2))
  induction members with
  | nil => trivial
  | cons m rest ih =>
    obtain ⟨first, others⟩ := List.forall_mem_cons.mp each
    exact ⟨sound_ofString m.1, first, ih others⟩

theorem valuesOf_of_mem {members : List (String × Json)} {m : String × Json}
    (distinct : (members.map Prod.fst).Nodup) (member : m ∈ members) :
    valuesOf members m.1 = [m.2] := by
  induction members with
  | nil => cases member
  | cons first rest ih =>
    rw [List.map_cons, List.nodup_cons] at distinct
    obtain ⟨fresh, others⟩ := distinct
    unfold valuesOf
    rcases List.mem_cons.mp member with rfl | later
    · have none : rest.filter (fun other => other.1 == m.1) = [] :=
        List.filter_eq_nil_iff.mpr fun other listed same =>
          fresh (eq_of_beq same ▸ List.mem_map_of_mem listed)
      rw [List.filter_cons_of_pos (by simp), none]
      rfl
    · have other : ¬(first.1 == m.1) = true := fun same =>
        fresh (eq_of_beq same ▸ List.mem_map_of_mem later)
      rw [List.filter_cons, if_neg other]
      exact ih others later

theorem fields?_record {members : List (String × Json)}
    (distinct : (members.map Prod.fst).Nodup) :
    fields? (members.map Prod.fst) (record members) = some (members.map fun m => .given m.2) := by
  show Option.bind (List.mapM _ (members.map _)) _ = _
  rw [List.mapM_map, mapM_eq_pure (g := id), List.map_id, Option.pure_def, Option.bind_some,
    List.mapM_map]
  · refine mapM_eq_pure fun m listed => ?_
    dsimp only [Function.comp]
    rw [valuesOf_of_mem distinct listed]
    rfl
  · intro m _
    dsimp only [Function.comp]
    rw [text?_ofString]
    rfl

@[simp] theorem required?_given (read : Json → Option α) (v : Json) :
    (Field.given v).required? read = read v := rfl

@[simp] theorem withDefault?_given (read : Json → Option α) (default : α) (v : Json) :
    (Field.given v).withDefault? read default = read v := rfl

theorem unsigned?_toDigits {n : Nat} (small : n < 0x10000000000000000) :
    Number.unsigned? (Nat.toDigits 10 n) = some (.natural n) := by
  have spelled := Text.spells_toDigits n
  have ends : ∀ c ∈ ([] : List Char).head?, c.isDigit = false := nofun
  obtain ⟨taken, left⟩ := Prod.mk.inj (Decimal.splitDigits_append spelled.digit ends)
  rw [List.append_nil] at taken left
  rw [Number.unsigned?, taken, left, spelled.value]
  simp [small]

theorem ofLiteral?_of_digit {s : List Char} (first : Text.LeadsWithDigit s) :
    Number.ofLiteral? s = Number.unsigned? s := by
  obtain ⟨c, rest, rfl, digit⟩ := first
  unfold Number.ofLiteral?
  split
  · rename_i minus
    obtain ⟨rfl, -⟩ := List.cons.inj minus
    cases digit
  · rfl

theorem nat?_ofNat {n : Nat} (small : n < 0x10000000000000000) : nat? (ofNat n) = some n := by
  rw [ofNat, nat?, ofLiteral?_of_digit (Text.spells_toDigits n).leads, unsigned?_toDigits small]

theorem sound_ofNat (n : Nat) : Sound (ofNat n) :=
  ⟨.ofNat n, false, (Literal.text_ofNat n).symm⟩

end Multilevel.Json
