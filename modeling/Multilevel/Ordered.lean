namespace Multilevel.Ordered

def insert (a : Nat) : List Nat → List Nat
  | [] => [a]
  | b :: rest => if a < b then a :: b :: rest else if a = b then b :: rest else b :: insert a rest

def ofList (numbers : List Nat) : List Nat := numbers.foldr insert []

end Multilevel.Ordered
