import Multilevel.Yaml.Node
import Multilevel.Decimal.Reader
import Multilevel.Hypergraph.Basic

namespace Multilevel.Yaml

def floatTag : List Char := "tag:yaml.org,2002:float".toList

/-- The text of a scalar that may be a number: a plain one, or a literal block with a tag. -/
def numberText? : Node → Option (List Char)
  | .scalar _ _ .plain text => some text
  | .scalar _ (some tag) .literal text => if tag = floatTag then some text else none
  | _ => none

/-- A number. Infinities and missing numbers begin with a point. -/
def number? (text : List Char) : Option Float :=
  let s := String.ofList text
  if [".inf", ".Inf", ".INF", "+.inf", "+.Inf", "+.INF"].contains s then
    some (Float.ofBits 0x7ff0000000000000)
  else if ["-.inf", "-.Inf", "-.INF"].contains s then some (Float.ofBits 0xfff0000000000000)
  else if [".nan", ".NaN", ".NAN"].contains s then some (Float.ofBits 0x7ff8000000000000)
  else (Decimal.read? text).filter Float.isFinite

def Node.isEmpty : Node → Bool
  | .scalar _ _ .plain text => text.isEmpty
  | _ => false

def float? (document v : Node) : Option Float := do
  number? (← numberText? (← document.resolve? v))

/-- A list of numbers; nothing at all is an empty list. -/
def floats? (document v : Node) : Option (List Float) := do
  match ← document.resolve? v with
  | .list _ elements => elements.mapM (float? document)
  | v => if v.isEmpty then some [] else none

/-- The text of a key. Every scalar can be one. -/
def keyText? (document v : Node) : Option String := do
  match ← document.resolve? v with
  | .scalar _ _ _ text => some (String.ofList text)
  | _ => none

/-- The entries of a map by the texts of their keys. -/
def entries? (document : Node) : Option (List (String × Node)) :=
  match document with
  | .map _ entries => entries.mapM fun (k, v) => do return (← keyText? document k, v)
  | v => if v.isEmpty then some [] else none

/-- The numbers under a key, which may stand only once, or one number of one. -/
def factor? (document : Node) (entries : List (String × Node)) (key : String) :
    Option (List Float) :=
  match entries.filter (·.1 = key) with
  | [] => some [1]
  | [(_, v)] => floats? document v
  | _ => none

def factors? (text : String) : Option (Factors Float) := do
  let document ← Node.ofTokens? (← tokens? text.toList)
  let entries ← entries? document
  return ⟨← factor? document entries "node_weight_factor",
    ← factor? document entries "edge_weight_factor"⟩

end Multilevel.Yaml
