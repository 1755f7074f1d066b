import Multilevel.Text.Blank

/-!
# Sources

What a file holds, seen as lines. Lines end at line feeds. Where the bytes are no text as a whole,
each line is a text or is not. Readers take the content lines of a source, those that are neither
blank nor comments, one after another.
-/
namespace Multilevel

/-- What a file holds: a text, or bytes that are none. -/
inductive Source
  | text (s : String)
  | bytes (b : List UInt8)
  deriving DecidableEq

namespace Source

open Text

def decode? (b : List UInt8) : Option (List Char) :=
  (ByteArray.mk b.toArray).utf8Decode?.map Array.toList

def ofBytes (b : List UInt8) : Source :=
  match decode? b with
  | some chars => .text (String.ofList chars)
  | none => .bytes b

def lines : Source → List (Option (List Char))
  | text s => (segments (· = '\n') s.toList).map some
  | bytes b => (segments (· = 10) b).map decode?

structure Line where
  /-- Its position among all lines, from one. -/
  number : Nat
  /-- What it says, without blanks at the ends. -/
  content : List Char
  deriving DecidableEq, Repr

def Line.words (l : Line) : List (List Char) := Text.words l.content

/-- What a reader meets next: a content line, or a line that is no text. -/
inductive Met
  | line (l : Line)
  | unreadable

/-- Whether a trimmed line says something: it is neither blank nor a comment. -/
def isContent : List Char → Bool
  | [] => false
  | c :: _ => c ≠ '%'

/-- The content lines after a number of lines, up to the first line that is no text. -/
def contentAfter (number : Nat) : List (Option (List Char)) → List Met
  | [] => []
  | none :: _ => [.unreadable]
  | some line :: rest =>
    let content := trim line
    if isContent content then .line ⟨number + 1, content⟩ :: contentAfter (number + 1) rest
    else contentAfter (number + 1) rest

def content (s : Source) : List Met := contentAfter 0 s.lines

end Source
end Multilevel
