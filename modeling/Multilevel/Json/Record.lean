import Multilevel.Json.Number

/-!
# Typed reading of JSON

Readers of data from JSON values. A record is read from an object by its keys, where unknown keys
are passed over unread, or from an array by position.
-/
namespace Multilevel.Json

/-- A floating point number; integers count. -/
def float? : Json → Option Float
  | .number literal => (Number.ofLiteral? literal).map Number.toFloat
  | _ => none

def nat? : Json → Option Nat
  | .number literal =>
    match Number.ofLiteral? literal with
    | some (.natural n) => some n
    | _ => none
  | _ => none

def int32? : Json → Option Int32
  | .number literal =>
    match Number.ofLiteral? literal with
    | some (.natural n) => if n < 0x80000000 then some (.ofNat n) else none
    | some (.negative n) => if n ≤ 0x80000000 then some (.ofInt (-n)) else none
    | _ => none
  | _ => none

def bool? : Json → Option Bool
  | .bool b => some b
  | _ => none

def string? : Json → Option String
  | .string pieces => Piece.text? pieces
  | _ => none

def list? {α : Type} (read : Json → Option α) : Json → Option (List α)
  | .array elements => elements.mapM read
  | _ => none

def nullable? {α : Type} (read : Json → Option α) : Json → Option (Option α)
  | .null => some none
  | v => (read v).map some

/-- An object as a list of entries, whose keys must be texts. -/
def entries? {α : Type} (read : Json → Option α) : Json → Option (List (String × α))
  | .object members => members.mapM fun (k, v) => do return (← Piece.text? k, ← read v)
  | _ => none

inductive Field
  | given (value : Json)
  | missing
  | cutOff

namespace Field

def required? {α : Type} (read : Json → Option α) : Field → Option α
  | given v => read v
  | _ => none

def withDefault? {α : Type} (read : Json → Option α) (default : α) : Field → Option α
  | given v => read v
  | _ => some default

/-- A field that an object may leave out but an array may not. -/
def optional? {α : Type} (read : Json → Option α) : Field → Option (Option α)
  | given v => nullable? read v
  | missing => some none
  | cutOff => none

end Field

def valuesOf (members : List (String × Json)) (key : String) : List Json :=
  (members.filter (·.1 == key)).map (·.2)

/-- The fields of a record with the given names. A known key may stand only once, and an array may
not be longer than the record. -/
def fields? (names : List String) : Json → Option (List Field)
  | .object members => do
    -- keys have to be texts even where their values are passed over
    let members ← members.mapM fun (k, v) => do return (← Piece.text? k, v)
    names.mapM fun name =>
      match valuesOf members name with
      | [] => some .missing
      | [v] => some (.given v)
      | _ => none
  | .array elements =>
    if elements.length ≤ names.length then
      some (elements.map .given
        ++ List.replicate (names.length - elements.length) .cutOff)
    else none
  | _ => none

mutual

/-- Whether a value can be held before its type is known: every number and every text in it can be
read, and it is nested less deeply than a given depth. -/
def holdable (depth : Nat) : Json → Bool
  | .null => true
  | .bool _ => true
  | .number literal => (Number.ofLiteral? literal).isSome
  | .string pieces => (Piece.text? pieces).isSome
  | .array elements => 1 < depth && holdableAll (depth - 1) elements
  | .object members => 1 < depth && holdableMembers (depth - 1) members

def holdableAll (depth : Nat) : List Json → Bool
  | [] => true
  | v :: rest => holdable depth v && holdableAll depth rest

def holdableMembers (depth : Nat) : List (List Piece × Json) → Bool
  | [] => true
  | (k, v) :: rest => (Piece.text? k).isSome && holdable depth v && holdableMembers depth rest

end
end Multilevel.Json
