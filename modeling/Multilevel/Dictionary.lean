namespace Multilevel

abbrev Dictionary (κ ν : Type) := List (κ × ν)

namespace Dictionary

variable {κ ν : Type} [LT κ] [DecidableLT κ]

def put (key : κ) (value : ν) : Dictionary κ ν → Dictionary κ ν
  | [] => [(key, value)]
  | (k, v) :: rest =>
    if key < k then (key, value) :: (k, v) :: rest
    else if k < key then (k, v) :: put key value rest
    else (key, value) :: rest

/-- The dictionary of a list of entries, of which the last one for a key counts. -/
def ofList (entries : List (κ × ν)) : Dictionary κ ν :=
  entries.foldl (fun d e => put e.1 e.2 d) []

end Dictionary

def Dictionary.get? {κ ν : Type} [BEq κ] (d : Dictionary κ ν) (key : κ) : Option ν :=
  List.lookup key d

end Multilevel
