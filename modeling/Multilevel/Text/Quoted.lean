import Multilevel.Text.Unprintable

namespace Multilevel.Text

def codePoint (c : Char) : List Char := ['\\', 'u', '\x7b'] ++ Nat.toDigits 16 c.toNat ++ ['\x7d']

def quotedChar : Char → List Char
  | '\x00' => ['\\', '0']
  | '\t' => ['\\', 't']
  | '\n' => ['\\', 'n']
  | '\r' => ['\\', 'r']
  | '"' => ['\\', '"']
  | '\\' => ['\\', '\\']
  | c => if isUnprintable c then codePoint c else [c]

def quoted (s : List Char) : String := String.ofList ('"' :: s.flatMap quotedChar ++ ['"'])

end Multilevel.Text
