import Multilevel.Proofs.Hmetis.Grammar

/-!
# Objections to rows

What is wrong with a row of a graph file depends on the role that it has there. `Objection` lists
all that can be wrong, in the order in which it is looked for, and each reader of a line finds just
that (`header_error`, `edgeLine_error`, `nodeLine_error`).
-/
namespace Multilevel.Hmetis

open Text Source

variable {α : Type}

abbrev Row := List (List Char)

inductive Role
  | header
  | edge (weighed : Bool)
  | node

def IsWeight (α : Type) [Numeral α] (word : List Char) : Prop :=
  ∃ x : α, Numeral.read? word = some x

/-- The words before some word of a row are as they should be. -/
structure GoodUpTo (good : List Char → Prop) (row before : Row) (word : List Char) : Prop where
  within : ∃ after, row = before ++ word :: after
  good : ∀ w ∈ before, good w

/-- What is wrong with a word that should number a node. -/
inductive MemberObjection (word : List Char) : Malformed → Prop
  | unread (bad : ∀ n, ¬ Natural word n) : MemberObjection word (.invalidToken (String.ofList word))
  | zero (written : Natural word 0) : MemberObjection word .zeroNodeId

inductive Objection [Numeral α] (factors : Factors α) : Role → Row → Malformed → Prop
  | length {row : Row} (wrong : row.length < 2 ∨ 3 < row.length) :
    Objection factors .header row .malformedHeader
  | edgeCount {e n : List Char} {third : Row} (few : third.length ≤ 1) (bad : ∀ k, ¬ Natural e k) :
    Objection factors .header (e :: n :: third) (.invalidToken (String.ofList e))
  | nodeCount {e n : List Char} {third : Row} {edges : Nat} (few : third.length ≤ 1)
    (counted : Natural e edges) (bad : ∀ k, ¬ Natural n k) :
    Objection factors .header (e :: n :: third) (.invalidToken (String.ofList n))
  | flags {e n f : List Char} {edges nodes : Nat} (counted : Natural e edges)
    (numbered : Natural n nodes) (bad : ∀ a b, ¬ Flags [f] a b) :
    Objection factors .header [e, n, f] (.malformedFlags (String.ofList f))
  | fewWeights {row : Row} (short : row.length < factors.edge.length) :
    Objection factors (.edge true) row .missingEdgeWeights
  | edgeWeight {row before : Row} {word : List Char} (enough : factors.edge.length ≤ row.length)
    (first : GoodUpTo (IsWeight α) row before word) (inside : before.length < factors.edge.length)
    (bad : ¬ IsWeight α word) :
    Objection factors (.edge true) row (.invalidToken (String.ofList word))
  | member {weighed : Bool} {weights row before : Row} {word : List Char} {cause : Malformed}
    (length : weights.length = if weighed then factors.edge.length else 0)
    (read : ∀ w ∈ weights, IsWeight α w)
    (first : GoodUpTo (∃ n, Natural · (n + 1)) row before word)
    (bad : MemberObjection word cause) :
    Objection factors (.edge weighed) (weights ++ row) cause
  | nodeWeight {row before : Row} {word : List Char} (first : GoodUpTo (IsWeight α) row before word)
    (bad : ¬ IsWeight α word) : Objection factors .node row (.invalidToken (String.ofList word))
  | weightCount {row : Row} (read : ∀ w ∈ row, IsWeight α w)
    (wrong : row.length ≠ factors.node.length) :
    Objection factors .node row (.nodeWeightCount factors.node.length row.length)

/-! ### Words -/

theorem GoodUpTo.of_take {good : List Char → Prop} {row before : Row} {word : List Char} {n : Nat}
    (first : GoodUpTo good (row.take n) before word) :
    GoodUpTo good row before word ∧ before.length < n := by
  obtain ⟨⟨after, split⟩, read⟩ := first
  have length := congrArg List.length split
  rw [List.length_take, List.length_append, List.length_cons] at length
  refine ⟨⟨⟨after ++ row.drop n, ?_⟩, read⟩, by omega⟩
  rw [← List.cons_append, ← List.append_assoc, ← split, List.take_append_drop]

theorem GoodUpTo.take {good : List Char → Prop} {row before : Row} {word : List Char} {n : Nat}
    (first : GoodUpTo good row before word) (inside : before.length < n) :
    GoodUpTo good (row.take n) before word := by
  obtain ⟨⟨after, rfl⟩, read⟩ := first
  obtain ⟨k, rfl⟩ := Nat.exists_eq_add_of_lt inside
  refine ⟨⟨after.take k, ?_⟩, read⟩
  rw [Nat.add_assoc, List.take_length_add_append, List.take_succ_cons]

section
variable {line : Nat} {fault : Fault}

theorem token_error {β : Type} {read : List Char → Option β} {s : List Char} :
    token read line s = .error fault ↔
      read s = none ∧ fault = .malformed line (.invalidToken (String.ofList s)) := by
  unfold token
  cases read s with
  | some => simp
  | none => simp [eq_comm]

theorem natural_error {s : List Char} : token natural? line s = .error fault ↔
    (∀ n, ¬ Natural s n) ∧ fault = .malformed line (.invalidToken (String.ofList s)) := by
  simp only [token_error, Option.eq_none_iff_forall_ne_some, ne_eq, natural?_eq_some]

theorem weight_error [Numeral α] {s : List Char} :
    token (Numeral.read? (α := α)) line s = .error fault ↔
      ¬ IsWeight α s ∧ fault = .malformed line (.invalidToken (String.ofList s)) := by
  simp only [token_error, Option.eq_none_iff_forall_ne_some, IsWeight, not_exists, ne_eq]

theorem member_error {s : List Char} : member line s = .error fault ↔
    ∃ cause, MemberObjection s cause ∧ fault = .malformed line cause := by
  unfold member
  simp only [bind_error, natural_error, token_ok, natural?_eq_some]
  constructor
  · rintro (⟨unread, rfl⟩ | ⟨_ | n, written, failed⟩)
    · exact ⟨_, .unread unread, rfl⟩
    · exact ⟨_, .zero written, (Except.error.inj failed).symm⟩
    · cases failed
  · rintro ⟨_, ⟨unread⟩ | ⟨written⟩, rfl⟩
    · exact .inl ⟨unread, rfl⟩
    · exact .inr ⟨0, written, rfl⟩

theorem flags_error {s : List Char} : flags line s = .error fault ↔
    (∀ a b, ¬ Flags [s] a b) ∧ fault = .malformed line (.malformedFlags (String.ofList s)) := by
  have only (d : Fault) (failed : flags line s = .error d) :
      d = .malformed line (.malformedFlags (String.ofList s)) := by
    unfold flags flags.bad at failed
    grind
  rw [error_iff only]
  simp only [Prod.forall, ne_eq, flags_ok]

end

/-! ### Rows -/

section
variable [Numeral α] {factors : Factors α} {l : Line} {fault : Fault}

theorem header_error : header l = .error fault ↔
    ∃ cause, Objection factors .header l.words cause ∧ fault = .malformed l.number cause := by
  unfold header
  generalize l.words = row
  constructor
  · intro failed
    split at failed
    · simp only [bind_error, natural_error, token_ok, natural?_eq_some] at failed
      rcases failed with ⟨bad, rfl⟩ | ⟨edges, counted, ⟨bad, rfl⟩ | ⟨_, -, ⟨⟩⟩⟩
      · exact ⟨_, .edgeCount (Nat.zero_le 1) bad, rfl⟩
      · exact ⟨_, .nodeCount (Nat.zero_le 1) counted bad, rfl⟩
    · simp only [bind_error, natural_error, token_ok, natural?_eq_some, flags_error] at failed
      rcases failed with ⟨bad, rfl⟩ | ⟨edges, counted, ⟨bad, rfl⟩ | ⟨nodes, numbered, ⟨bad, rfl⟩ |
        ⟨_, -, ⟨⟩⟩⟩⟩
      · exact ⟨_, .edgeCount (Nat.le_refl 1) bad, rfl⟩
      · exact ⟨_, .nodeCount (Nat.le_refl 1) counted bad, rfl⟩
      · exact ⟨_, .flags counted numbered bad, rfl⟩
    · rename_i two three
      refine ⟨_, .length ?_, (Except.error.inj failed).symm⟩
      match row with
      | [] | [_] => exact .inl (by simp)
      | [_, _] => exact absurd rfl (two _ _)
      | [_, _, _] => exact absurd rfl (three _ _ _)
      | _ :: _ :: _ :: _ :: _ => exact .inr (by simp)
  · rintro ⟨_, objection, rfl⟩
    cases objection with
    | length wrong =>
      split
      · simp at wrong
      · simp at wrong
      · rfl
    | edgeCount few bad =>
      rename_i third
      match third with
      | [] | [_] => exact bind_error.mpr (.inl (natural_error.mpr ⟨bad, rfl⟩))
    | nodeCount few counted bad =>
      rename_i third edges
      have first : token natural? l.number _ = .ok edges :=
        token_ok.mpr (natural?_eq_some.mpr counted)
      match third with
      | [] | [_] =>
        exact bind_error.mpr (.inr ⟨edges, first,
          bind_error.mpr (.inl (natural_error.mpr ⟨bad, rfl⟩))⟩)
    | flags counted numbered bad =>
      rename_i edges nodes
      have first : token natural? l.number _ = .ok edges :=
        token_ok.mpr (natural?_eq_some.mpr counted)
      have second : token natural? l.number _ = .ok nodes :=
        token_ok.mpr (natural?_eq_some.mpr numbered)
      exact bind_error.mpr (.inr ⟨edges, first, bind_error.mpr (.inr ⟨nodes, second,
        bind_error.mpr (.inl (flags_error.mpr ⟨bad, rfl⟩))⟩)⟩)

theorem members_error {line : Nat} {row : Row} : row.mapM (member line) = .error fault ↔
    ∃ before word cause, GoodUpTo (∃ n, Natural · (n + 1)) row before word ∧
      MemberObjection word cause ∧ fault = .malformed line cause := by
  simp only [mapM_error, member_ok, member_error]
  constructor
  · rintro ⟨before, word, after, rfl, known, cause, bad, rfl⟩
    exact ⟨before, word, cause, ⟨⟨after, rfl⟩, known⟩, bad, rfl⟩
  · rintro ⟨before, word, cause, ⟨⟨after, rfl⟩, known⟩, bad, rfl⟩
    exact ⟨before, word, after, rfl, known, cause, bad, rfl⟩

theorem weights_error {line : Nat} {row : Row} :
    row.mapM (token (Numeral.read? (α := α)) line) = .error fault ↔
      ∃ before word, GoodUpTo (IsWeight α) row before word ∧ ¬ IsWeight α word ∧
        fault = .malformed line (.invalidToken (String.ofList word)) := by
  simp only [mapM_error, token_ok, weight_error]
  constructor
  · rintro ⟨before, word, after, rfl, read, bad, rfl⟩
    exact ⟨before, word, ⟨⟨after, rfl⟩, read⟩, bad, rfl⟩
  · rintro ⟨before, word, ⟨⟨after, rfl⟩, read⟩, bad, rfl⟩
    exact ⟨before, word, after, rfl, read, bad, rfl⟩

theorem exists_weightRow {row : Row} :
    (∃ weights : List α, WeightRow row.length row weights) ↔ ∀ w ∈ row, IsWeight α w := by
  constructor
  · rintro ⟨weights, -, read⟩ w member
    exact forall_of_forall₂ read.flip (fun _ _ same => ⟨_, same⟩) w member
  · intro each
    have words : ∀ w ∈ row, ∃ x : α, token Numeral.read? 0 w = .ok x := fun w member =>
      (each w member).imp fun x same => token_ok.mpr same
    obtain ⟨weights, read⟩ := exists_mapM words
    exact ⟨weights, weights_ok.mp read⟩

theorem nodeLine_error : nodeLine (α := α) factors.node.length l = .error fault ↔
    ∃ cause, Objection factors .node l.words cause ∧ fault = .malformed l.number cause := by
  unfold nodeLine
  simp only [bind_error, weights_error, weights_ok]
  constructor
  · rintro (⟨before, word, first, bad, rfl⟩ | ⟨weights, row, failed⟩)
    · exact ⟨_, .nodeWeight first bad, rfl⟩
    · have read := exists_weightRow.mp ⟨weights, row⟩
      split at failed
      · cases failed
      · rename_i wrong
        rw [row.length] at wrong failed
        exact ⟨_, .weightCount read wrong, (Except.error.inj failed).symm⟩
  · rintro ⟨_, objection, rfl⟩
    generalize l.words = row at objection
    cases objection with
    | nodeWeight first bad => exact .inl ⟨_, _, first, bad, rfl⟩
    | weightCount read wrong =>
      obtain ⟨weights, row⟩ := exists_weightRow.mpr read
      refine .inr ⟨weights, row, ?_⟩
      rw [row.length, if_neg wrong]

theorem edgeLine_error [One α] {weighed : Bool} :
    edgeLine (α := α) factors.edge.length weighed l = .error fault ↔
      ∃ cause, Objection factors (.edge weighed) l.words cause ∧ fault = .malformed l.number cause := by
  unfold edgeLine
  generalize l.words = row
  cases weighed with
  | false =>
    rw [if_neg Bool.false_ne_true]
    refine (bind_error_left fun _ _ => ⟨_, rfl⟩).trans ?_
    rw [members_error]
    constructor
    · rintro ⟨before, word, cause, first, bad, rfl⟩
      have objection : Objection factors (.edge false) ([] ++ row) cause := .member rfl nofun first bad
      exact ⟨cause, objection, rfl⟩
    · rintro ⟨cause, objection, rfl⟩
      cases objection with
      | member length _ first bad =>
        obtain rfl := List.length_eq_zero_iff.mp length
        exact ⟨_, _, cause, first, bad, rfl⟩
  | true =>
    rw [if_pos rfl]
    constructor
    · intro failed
      split at failed
      · rename_i short
        exact ⟨_, .fewWeights short, (Except.error.inj failed).symm⟩
      · rename_i enough
        replace enough := Nat.le_of_not_lt enough
        simp only [bind_error, weights_error, weights_ok, members_error] at failed
        rcases failed with ⟨before, word, first, bad, rfl⟩ | ⟨weights, read, ⟨before, word, cause,
          first, bad, rfl⟩ | ⟨_, -, ⟨⟩⟩⟩
        · obtain ⟨first, inside⟩ := first.of_take
          exact ⟨_, .edgeWeight enough first inside bad, rfl⟩
        · have objection : Objection factors (.edge true)
              (row.take factors.edge.length ++ row.drop factors.edge.length) cause :=
            .member (List.length_take_of_le enough) (exists_weightRow.mp ⟨weights, read⟩) first bad
          rw [List.take_append_drop] at objection
          exact ⟨cause, objection, rfl⟩
    · rintro ⟨cause, objection, rfl⟩
      cases objection with
      | fewWeights short => rw [if_pos short]
      | edgeWeight enough first inside bad =>
        rw [if_neg (Nat.not_lt.mpr enough)]
        exact bind_error.mpr (.inl (weights_error.mpr ⟨_, _, first.take inside, bad, rfl⟩))
      | @member _ weights row _ _ _ length read first bad =>
        rw [if_pos rfl] at length
        have enough : ¬ (weights ++ row).length < factors.edge.length := by
          rw [List.length_append, length]
          exact Nat.not_lt.mpr (Nat.le_add_right _ _)
        obtain ⟨values, read⟩ := exists_weightRow.mpr read
        rw [if_neg enough, List.take_left' length, List.drop_left' length]
        refine bind_error.mpr (.inr ⟨values, weights_ok.mpr read, ?_⟩)
        exact bind_error.mpr (.inl (members_error.mpr ⟨_, _, _, first, bad, rfl⟩))

end
end Multilevel.Hmetis
