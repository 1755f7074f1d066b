import Multilevel.Json.Reader
import Multilevel.Proofs.Json.Tokens

namespace Multilevel.Json

open State (give step)

mutual

/-- The tokens of a value put the value in its place. -/
theorem foldlM_tokens (v : Json) (mayEnd : Bool) (frames : List Frame) (ts : List Token) :
    (tokens v ++ ts).foldlM step ⟨frames, .value mayEnd⟩ = ts.foldlM step (give frames v) := by
  match v with
  | .null => rfl
  | .bool _ => rfl
  | .number _ => rfl
  | .string _ => rfl
  | .array [] => rfl
  | .array (v :: rest) =>
    rw [tokens, List.cons_append, List.append_assoc]
    refine (foldlM_tokens v true (.array [] :: frames) _).trans ?_
    rw [List.append_assoc]
    exact foldlM_elementTokens rest [v] frames ts
  | .object [] => rfl
  | .object ((k, v) :: rest) =>
    rw [tokens, List.cons_append, List.cons_append, List.cons_append, List.append_assoc]
    refine (foldlM_tokens v false (.object [] k :: frames) _).trans ?_
    rw [List.append_assoc]
    exact foldlM_memberTokens rest [(k, v)] [] frames ts

theorem foldlM_elementTokens (rest done : List Json) (frames : List Frame) (ts : List Token) :
    (elementTokens rest ++ ([Token.closeArray] ++ ts)).foldlM step ⟨.array done :: frames, .more⟩ =
      ts.foldlM step (give frames (.array (done.reverse ++ rest))) := by
  match rest with
  | [] =>
    rw [List.append_nil]
    rfl
  | v :: rest =>
    rw [elementTokens, List.cons_append, List.append_assoc]
    refine (foldlM_tokens v false (.array done :: frames) _).trans ?_
    refine (foldlM_elementTokens rest (v :: done) frames ts).trans ?_
    rw [List.reverse_cons, List.append_assoc, List.singleton_append]

theorem foldlM_memberTokens (rest done : List (List Piece × Json)) (key : List Piece)
    (frames : List Frame) (ts : List Token) :
    (memberTokens rest ++ ([Token.closeObject] ++ ts)).foldlM step
        ⟨.object done key :: frames, .more⟩ =
      ts.foldlM step (give frames (.object (done.reverse ++ rest))) := by
  match rest with
  | [] =>
    rw [List.append_nil]
    rfl
  | (k, v) :: rest =>
    rw [memberTokens, List.cons_append, List.cons_append, List.cons_append, List.append_assoc]
    refine (foldlM_tokens v false (.object done k :: frames) _).trans ?_
    refine (foldlM_memberTokens rest ((k, v) :: done) [] frames ts).trans ?_
    rw [List.reverse_cons, List.append_assoc, List.singleton_append]

end

theorem ofTokens?_tokens (v : Json) : ofTokens? (tokens v) = some v := by
  have read := foldlM_tokens v false [] []
  rw [List.append_nil] at read
  rw [ofTokens?, read]
  rfl

/-- The text of a value reads as the value. -/
theorem read?_text (form : Form) {v : Json} (sound : Sound v) :
    read? (String.ofList (text form v)) = some v := by
  have scanned := scanned_text form v sound (s := []) nofun .nil
  rw [List.append_nil, List.append_nil] at scanned
  rw [read?, String.toList_ofList, scanned.ofText?]
  exact ofTokens?_tokens v

theorem read?_pretty {v : Json} (sound : Sound v) : read? v.pretty = some v := read?_text _ sound

end Multilevel.Json
