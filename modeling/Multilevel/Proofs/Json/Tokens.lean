import Multilevel.Proofs.Json.Literal

/-!
# Tokens of written values

The text of a value, in either form, has the tokens of the value. The text is taken apart from its
end: what is put in front of a text with some tokens has its own tokens in front of them.
-/
namespace Multilevel.Json

/-! ### Tokens of values -/

mutual

def tokens : Json → List Token
  | .null => [.null]
  | .bool b => [.bool b]
  | .number literal => [.number literal]
  | .string pieces => [.string pieces]
  | .array [] => [.openArray, .closeArray]
  | .array (v :: rest) => .openArray :: (tokens v ++ (elementTokens rest ++ [.closeArray]))
  | .object [] => [.openObject, .closeObject]
  | .object ((k, v) :: rest) =>
    .openObject :: .string k :: .colon :: (tokens v ++ (memberTokens rest ++ [.closeObject]))

def elementTokens : List Json → List Token
  | [] => []
  | v :: rest => .comma :: (tokens v ++ elementTokens rest)

def memberTokens : List (List Piece × Json) → List Token
  | [] => []
  | (k, v) :: rest => .comma :: .string k :: .colon :: (tokens v ++ memberTokens rest)

end

/-! ### Texts and tokens -/

namespace Token

/-- A text has some tokens, whatever the number of steps that is granted for reading them. -/
inductive Scanned : List Char → List Token → Prop
  | nil : Scanned [] []
  | blank {c : Char} {s : List Char} {ts : List Token} (blank : isBlank c = true)
      (rest : Scanned s ts) : Scanned (c :: s) ts
  | token {c : Char} {s after : List Char} {t : Token} {ts : List Token}
      (solid : isBlank c = false) (next : next? (c :: s) = some (t, after))
      (shorter : after.length ≤ s.length) (rest : Scanned after ts) : Scanned (c :: s) (t :: ts)

theorem Scanned.scan {s : List Char} {ts : List Token} (scanned : Scanned s ts) {n : Nat}
    (enough : s.length ≤ n) : scan n s = some ts := by
  induction scanned generalizing n with
  | nil => cases n <;> rfl
  | blank blank rest ih =>
    obtain ⟨n, rfl⟩ := Nat.exists_eq_add_of_le' (Nat.le_trans (Nat.succ_pos _) enough)
    rw [Token.scan, if_pos blank]
    exact ih (Nat.le_of_succ_le_succ enough)
  | token solid next shorter rest ih =>
    obtain ⟨n, rfl⟩ := Nat.exists_eq_add_of_le' (Nat.le_trans (Nat.succ_pos _) enough)
    rw [Token.scan, if_neg (by simp [solid]), next]
    simp [ih (Nat.le_trans shorter (Nat.le_of_succ_le_succ enough))]

theorem Scanned.ofText? {s : List Char} {ts : List Token} (scanned : Scanned s ts) :
    ofText? s = some ts :=
  scanned.scan (Nat.le_refl _)

/-! ### Strings -/

theorem hexDigit?_hexChar : ∀ d < 16, Text.hexDigit? (hexChar d) = some d := by decide

theorem unit?_unitText {unit : Nat} (small : unit < 0x10000) :
    unit? (hexChar (unit / 4096 % 16)) (hexChar (unit / 256 % 16)) (hexChar (unit / 16 % 16))
      (hexChar (unit % 16)) = some unit := by
  have digit (n : Nat) := hexDigit?_hexChar (n % 16) (Nat.mod_lt _ (by decide))
  simp only [unit?, digit, Option.bind_eq_bind, Option.bind_some, Option.pure_def]
  congr 1
  omega

/-- A unit that was read on its own is a surrogate. -/
def Sound : Piece → Prop
  | .char _ => True
  | .surrogate unit => Piece.isHigh unit = true ∨ Piece.isLow unit = true

theorem stringBody?_unit {unit : Nat} (small : unit < 0x10000) (rest : List Char) :
    stringBody? (unitText unit ++ rest) =
      (stringBody? rest).map fun (pieces, after) => (.ofUnit unit :: pieces, after) := by
  show (unit? _ _ _ _).bind _ = _
  rw [unit?_unitText small, Option.bind_some, Option.map_eq_bind]
  rfl

theorem stringBody?_plain {c : Char} (quote : c ≠ '"') (backslash : c ≠ '\\')
    (control : ¬c.toNat < 0x20) (rest : List Char) :
    stringBody? (c :: rest) =
      (stringBody? rest).map fun (pieces, after) => (.char c :: pieces, after) := by
  rw [stringBody?.eq_def]
  split
  · rename_i is
    cases is
  · rename_i is
    exact absurd (List.cons.inj is).1 quote
  · rename_i is
    exact absurd (List.cons.inj is).1 backslash
  · rename_i is
    exact absurd (List.cons.inj is).1 backslash
  · rename_i is
    obtain ⟨rfl, rfl⟩ := List.cons.inj is
    rw [if_neg control, Option.map_eq_bind]
    rfl

theorem stringBody?_piece {p : Piece} (sound : Sound p) (rest : List Char) :
    stringBody? (pieceText p ++ rest) =
      (stringBody? rest).map fun (pieces, after) => (p :: pieces, after) := by
  rw [pieceText.eq_def]
  split
  case h_1 unit =>
    have small : unit < 0x10000 := by
      simp only [Sound, Piece.isHigh, Piece.isLow, Bool.and_eq_true, decide_eq_true_eq] at sound
      omega
    have kept : Piece.ofUnit unit = .surrogate unit := if_pos (Bool.or_eq_true _ _ ▸ sound)
    rw [stringBody?_unit small, kept]
  case h_9 c quote backslash _ _ _ _ _ =>
    by_cases control : c.toNat < 0x20
    · have plain : ¬(Piece.isHigh c.toNat || Piece.isLow c.toNat) = true := by
        simp only [Piece.isHigh, Piece.isLow, Bool.or_eq_true, Bool.and_eq_true, decide_eq_true_eq]
        omega
      have kept : Piece.ofUnit c.toNat = .char c := by
        rw [Piece.ofUnit, if_neg plain, Char.ofNat_toNat]
      rw [if_pos control, stringBody?_unit (by omega), kept]
    · rw [if_neg control]
      exact stringBody?_plain quote backslash control rest
  all_goals
    -- the characters that have an escape of their own
    rw [Option.map_eq_bind]
    rfl

theorem stringBody?_pieces {pieces : List Piece} (sound : ∀ p ∈ pieces, Sound p)
    (rest : List Char) :
    stringBody? (pieces.flatMap pieceText ++ '"' :: rest) = some (pieces, rest) := by
  induction pieces with
  | nil => rfl
  | cons p pieces ih =>
    obtain ⟨first, others⟩ := List.forall_mem_cons.mp sound
    rw [List.flatMap_cons, List.append_assoc, stringBody?_piece first, ih others]
    rfl

theorem next?_string {pieces : List Piece} (sound : ∀ p ∈ pieces, Sound p) (rest : List Char) :
    next? (stringText pieces ++ rest) = some (.string pieces, rest) := by
  rw [stringText, List.append_assoc]
  show (stringBody? (pieces.flatMap pieceText ++ '"' :: rest)).map _ = _
  rw [stringBody?_pieces sound]
  rfl

/-! ### Numbers -/

def IsLiteral (s : List Char) : Prop :=
  ∃ (l : Literal) (negative : Bool), s = Decimal.Layout.text.signed negative l.text

theorem IsLiteral.first {s : List Char} (literal : IsLiteral s) :
    ∃ c rest, s = c :: rest ∧ (c.isDigit = true ∨ c = '-') := by
  obtain ⟨l, negative, rfl⟩ := literal
  cases negative with
  | false =>
    obtain ⟨c, rest, is, digit⟩ := l.leads
    exact ⟨c, rest, is, .inl digit⟩
  | true => exact ⟨'-', l.text, rfl, .inr rfl⟩

theorem next?_number {s rest : List Char} (literal : IsLiteral s) (stops : Stops rest) :
    next? (s ++ rest) = some (.number s, rest) := by
  obtain ⟨c, others, is, first⟩ := literal.first
  have falls : next? (s ++ rest) =
      (number? (s ++ rest)).map fun read => (.number read.1, read.2) := by
    rw [next?.eq_def]
    subst is
    split
    case h_11 => rfl
    all_goals
      -- no other token begins like this
      rename_i begins
      obtain ⟨rfl, -⟩ := List.cons.inj begins
      exact absurd first (by decide)
  obtain ⟨l, negative, rfl⟩ := literal
  rw [falls, number?_append l negative stops]
  rfl

end Token

/-! ### Values -/

mutual

/-- A value that can be written: its numbers have literals. -/
def Sound : Json → Prop
  | .null => True
  | .bool _ => True
  | .number literal => Token.IsLiteral literal
  | .string pieces => ∀ p ∈ pieces, Token.Sound p
  | .array elements => SoundElements elements
  | .object members => SoundMembers members

def SoundElements : List Json → Prop
  | [] => True
  | v :: rest => Sound v ∧ SoundElements rest

def SoundMembers : List (List Piece × Json) → Prop
  | [] => True
  | (k, v) :: rest => (∀ p ∈ k, Token.Sound p) ∧ Sound v ∧ SoundMembers rest

end

namespace Token

section
variable {s : List Char} {ts : List Token} (form : Form)

theorem Scanned.mark {c : Char} {t : Token} (solid : isBlank c = false)
    (next : ∀ s, next? (c :: s) = some (t, s)) (scanned : Scanned s ts) :
    Scanned (c :: s) (t :: ts) :=
  .token solid (next s) (Nat.le_refl _) scanned

theorem Scanned.lineBreak (scanned : Scanned s ts) : Scanned (form.lineBreak ++ s) ts := by
  cases form with
  | compact => exact scanned
  | indented depth =>
    refine .blank rfl ?_
    induction 2 * depth with
    | zero => exact scanned
    | succ count ih => exact .blank rfl ih

theorem Scanned.string {pieces : List Piece} (sound : ∀ p ∈ pieces, Token.Sound p)
    (scanned : Scanned s ts) : Scanned (stringText pieces ++ s) (.string pieces :: ts) := by
  have next := next?_string sound s
  rw [stringText, List.append_assoc, List.cons_append] at next ⊢
  exact .token rfl next (by simp; omega) scanned

theorem Scanned.number {literal : List Char} (is : IsLiteral literal) (stops : Stops s)
    (scanned : Scanned s ts) : Scanned (literal ++ s) (.number literal :: ts) := by
  have next := next?_number is stops
  obtain ⟨c, rest, rfl, first⟩ := is.first
  have solid : isBlank c = false := by
    rcases first with digit | rfl
    · have bounds := Text.bounds_of_isDigit digit
      simp only [isBlank, Bool.or_eq_false_iff, decide_eq_false_iff_not]
      refine ⟨⟨⟨?_, ?_⟩, ?_⟩, ?_⟩ <;> (rintro rfl; revert bounds; decide)
    · rfl
  exact .token solid next (by simp) scanned

theorem Scanned.colon (scanned : Scanned s ts) : Scanned (form.colon ++ s) (.colon :: ts) := by
  cases form with
  | compact => exact .mark rfl (fun _ => rfl) scanned
  | indented depth => exact .mark rfl (fun _ => rfl) (.blank rfl scanned)

end

end Token

/-! ### What stands behind a value -/

theorem stops_cons {c : Char} (other : c.isDigit = false ∧ c ≠ '.' ∧ c ≠ 'e' ∧ c ≠ 'E')
    (s : List Char) : Stops (c :: s) := by
  rintro _ ⟨⟩
  exact other

section
variable (form : Form) {s : List Char} (stops : Stops s)
include stops

theorem stops_lineBreak : Stops (form.lineBreak ++ s) := by
  cases form with
  | compact => exact stops
  | indented depth => exact stops_cons (by decide) _

theorem stops_elementsText (elements : List Json) : Stops (elementsText form elements ++ s) := by
  cases elements with
  | nil => exact stops
  | cons v rest => exact stops_cons (by decide) _

theorem stops_membersText (members : List (List Piece × Json)) :
    Stops (membersText form members ++ s) := by
  cases members with
  | nil => exact stops
  | cons v rest => exact stops_cons (by decide) _

end

mutual

/-- A value in front of a text that cannot carry it on adds its tokens. -/
theorem scanned_text (form : Form) (v : Json) (sound : Sound v) {s : List Char} {ts : List Token}
    (stops : Stops s) (scanned : Token.Scanned s ts) :
    Token.Scanned (text form v ++ s) (tokens v ++ ts) := by
  match v, sound with
  | .null, _ => exact .token rfl rfl (Nat.le_add_right _ 3) scanned
  | .bool true, _ => exact .token rfl rfl (Nat.le_add_right _ 3) scanned
  | .bool false, _ => exact .token rfl rfl (Nat.le_add_right _ 4) scanned
  | .number literal, sound => exact scanned.number sound stops
  | .string pieces, sound => exact scanned.string sound
  | .array [], _ =>
    exact .mark rfl (fun _ => rfl) (.mark rfl (fun _ => rfl) scanned)
  | .array (v :: rest), ⟨first, others⟩ =>
    have closed : Token.Scanned (form.lineBreak ++ ']' :: s) (.closeArray :: ts) :=
      .lineBreak form (.mark rfl (fun _ => rfl) scanned)
    have behind := stops_lineBreak form (stops_cons (c := ']') (by decide) s)
    have later := scanned_elementsText form.inner rest others behind closed
    have value := scanned_text form.inner v first (stops_elementsText form.inner behind rest) later
    have opened := (value.lineBreak form.inner).mark (c := '[') rfl fun _ => rfl
    simpa [text, tokens] using opened
  | .object [], _ =>
    exact .mark rfl (fun _ => rfl) (.mark rfl (fun _ => rfl) scanned)
  | .object ((k, v) :: rest), ⟨key, first, others⟩ =>
    have closed : Token.Scanned (form.lineBreak ++ '\x7d' :: s) (.closeObject :: ts) :=
      .lineBreak form (.mark rfl (fun _ => rfl) scanned)
    have behind := stops_lineBreak form (stops_cons (c := '\x7d') (by decide) s)
    have later := scanned_membersText form.inner rest others behind closed
    have value := scanned_text form.inner v first (stops_membersText form.inner behind rest) later
    have named := (value.colon form.inner).string key
    have opened := (named.lineBreak form.inner).mark (c := '\x7b') rfl fun _ => rfl
    simpa [text, tokens] using opened

theorem scanned_elementsText (form : Form) (elements : List Json) (sound : SoundElements elements)
    {s : List Char} {ts : List Token} (stops : Stops s) (scanned : Token.Scanned s ts) :
    Token.Scanned (elementsText form elements ++ s) (elementTokens elements ++ ts) := by
  match elements, sound with
  | [], _ => exact scanned
  | v :: rest, ⟨first, others⟩ =>
    have later := scanned_elementsText form rest others stops scanned
    have value := scanned_text form v first (stops_elementsText form stops rest) later
    have next := (value.lineBreak form).mark (c := ',') rfl fun _ => rfl
    simpa [elementsText, elementTokens] using next

theorem scanned_membersText (form : Form) (members : List (List Piece × Json))
    (sound : SoundMembers members) {s : List Char} {ts : List Token} (stops : Stops s)
    (scanned : Token.Scanned s ts) :
    Token.Scanned (membersText form members ++ s) (memberTokens members ++ ts) := by
  match members, sound with
  | [], _ => exact scanned
  | (k, v) :: rest, ⟨key, first, others⟩ =>
    have later := scanned_membersText form rest others stops scanned
    have value := scanned_text form v first (stops_membersText form stops rest) later
    have named := (value.colon form).string key
    have next := (named.lineBreak form).mark (c := ',') rfl fun _ => rfl
    simpa [membersText, memberTokens] using next

end

end Multilevel.Json
