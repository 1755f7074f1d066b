namespace Multilevel.Text

def isBlank (c : Char) : Bool :=
  let n := c.toNat
  (0x9 ≤ n && n ≤ 0xd) || n = 0x20 || n = 0x85 || n = 0xa0 || n = 0x1680
    || (0x2000 ≤ n && n ≤ 0x200a) || n = 0x2028 || n = 0x2029 || n = 0x202f || n = 0x205f
    || n = 0x3000

def trim (s : List Char) : List Char :=
  ((s.dropWhile isBlank).reverse.dropWhile isBlank).reverse

/-- The parts of a list between separators. What follows the last separator is a part only if it
is not empty. -/
def segments {β : Type} (isSeparator : β → Bool) : List β → List (List β)
  | [] => []
  | c :: rest =>
    if isSeparator c then [] :: segments isSeparator rest
    else match segments isSeparator rest with
      | [] => [[c]]
      | part :: parts => (c :: part) :: parts

/-- The lines of a text, which end at a line feed or at a carriage return and a line feed. A carriage
return before the end of the text belongs to the last line. -/
def lines : List Char → List (List Char)
  | [] => []
  | '\n' :: rest => [] :: lines rest
  | '\r' :: '\n' :: rest => [] :: lines rest
  | c :: rest =>
    match lines rest with
    | [] => [[c]]
    | line :: others => (c :: line) :: others

def words (s : List Char) : List (List Char) := (segments isBlank s).filter (!·.isEmpty)

end Multilevel.Text
