import Multilevel.Json.Token

namespace Multilevel.Json

/-- A container that is still open, with what it holds so far, last first. -/
inductive Frame
  | array (done : List Json)
  | object (done : List (List Piece × Json)) (key : List Piece)

inductive Expecting
  /-- A value; directly after an opening bracket the array may also end. -/
  | value (mayEnd : Bool)
  /-- A comma or the end of the innermost container. -/
  | more
  /-- A key; directly after an opening brace the object may also end. -/
  | key (done : List (List Piece × Json)) (mayEnd : Bool)
  | colon (done : List (List Piece × Json)) (key : List Piece)
  /-- Nothing: the value is complete. -/
  | done (value : Json)

structure State where
  frames : List Frame
  expecting : Expecting

namespace State

def give (frames : List Frame) (value : Json) : State :=
  match frames with
  | [] => ⟨[], .done value⟩
  | .array done :: rest => ⟨.array (value :: done) :: rest, .more⟩
  | .object done key :: rest => ⟨.object ((key, value) :: done) [] :: rest, .more⟩

def step (s : State) (t : Token) : Option State :=
  match s.expecting, t with
  | .value _, .null => some (give s.frames .null)
  | .value _, .bool b => some (give s.frames (.bool b))
  | .value _, .number l => some (give s.frames (.number l))
  | .value _, .string p => some (give s.frames (.string p))
  | .value _, .openArray => some ⟨.array [] :: s.frames, .value true⟩
  | .value _, .openObject => some ⟨s.frames, .key [] true⟩
  | .value true, .closeArray =>
    match s.frames with
    | .array done :: rest => some (give rest (.array done.reverse))
    | _ => none
  | .key done _, .string p => some ⟨s.frames, .colon done p⟩
  | .key done true, .closeObject => some (give s.frames (.object done.reverse))
  | .colon done key, .colon => some ⟨.object done key :: s.frames, .value false⟩
  | .more, .comma =>
    match s.frames with
    | .array done :: rest => some ⟨.array done :: rest, .value false⟩
    | .object done _ :: rest => some ⟨rest, .key done false⟩
    | [] => none
  | .more, .closeArray =>
    match s.frames with
    | .array done :: rest => some (give rest (.array done.reverse))
    | _ => none
  | .more, .closeObject =>
    match s.frames with
    | .object done _ :: rest => some (give rest (.object done.reverse))
    | _ => none
  | _, _ => none

end State

def ofTokens? (tokens : List Token) : Option Json := do
  match (← tokens.foldlM State.step ⟨[], .value false⟩).expecting with
  | .done value => some value
  | _ => none

def read? (text : String) : Option Json := (Token.ofText? text.toList).bind ofTokens?

end Multilevel.Json
