namespace Multilevel.CommandLine

structure Input where
  graph : String
  settings : Option String
  deriving DecidableEq, Repr

structure Clusters where
  file : String
  keepBoundary : Bool
  deriving DecidableEq, Repr

inductive Command
  | info (input : Input) (json histogram : Bool)
  | compress (input : Input) (out : String)
  | evaluate (input : Input) (partition : String) (out : Option String)
  | coarsen (input : Input) (clusters : Clusters) (out : String) (map : Option String)
  | project (input : Input) (clusters : Clusters) (partition out : String)
  deriving DecidableEq, Repr

/-- The options and flags of a command line, each once. -/
structure Given where
  options : List (String × String) := []
  flags : List String := []
  deriving DecidableEq, Repr

namespace Given

def has (g : Given) (name : String) : Bool :=
  g.flags.contains name || (g.options.map (·.1)).contains name

def addFlag? (g : Given) (name : String) : Option Given :=
  if g.has name then none else some { g with flags := g.flags ++ [name] }

/-- Adds an option that has not been given. Its value must not be empty. -/
def addOption? (g : Given) (name value : String) : Option Given :=
  if g.has name || value.isEmpty then none
  else some { g with options := g.options ++ [(name, value)] }

def value? (g : Given) (name : String) : Option String := g.options.lookup name

def isSet (g : Given) (name : String) : Bool := g.flags.contains name

end Given

structure Names where
  options : List String
  flags : List String

def named? (argument : String) : Option (String × Option String) :=
  match argument.toList with
  | '-' :: '-' :: rest =>
    let name := rest.takeWhile (· ≠ '=')
    if name.isEmpty then none
    else match rest.dropWhile (· ≠ '=') with
      | [] => some (String.ofList name, none)
      | _ :: value => some (String.ofList name, some (String.ofList value))
  | _ => none

/-- Whether an argument can be a value: it does not begin with a dash, or is one. -/
def isValue (argument : String) : Bool := argument = "-" || argument.toList.head? ≠ some '-'

def scan? (names : Names) (given : Given) : List String → Option Given
  | [] => some given
  | ["--"] => some given
  | argument :: rest =>
    match named? argument with
    | none => none
    | some (name, some value) =>
      -- a flag takes no value
      if names.options.contains name then
        (given.addOption? name value).bind fun g => scan? names g rest
      else none
    | some (name, none) =>
      if names.flags.contains name then
        (given.addFlag? name).bind fun g => scan? names g rest
      else if names.options.contains name then
        match rest with
        | value :: rest =>
          if isValue value then (given.addOption? name value).bind fun g => scan? names g rest
          else none
        | [] => none
      else none

def common : Names := ⟨["in", "config"], ["verbose"]⟩

def names? : String → Option Names
  | "info" => some ⟨common.options, common.flags ++ ["json", "histogram"]⟩
  | "compress" => some ⟨common.options ++ ["out"], common.flags⟩
  | "evaluate" => some ⟨common.options ++ ["partition", "out"], common.flags⟩
  | "coarsen" =>
    some ⟨common.options ++ ["clusters", "out", "map"], common.flags ++ ["virtual-boundary"]⟩
  | "project" =>
    some ⟨common.options ++ ["clusters", "partition", "out"], common.flags ++ ["virtual-boundary"]⟩
  | _ => none

def input? (g : Given) : Option Input := do return ⟨← g.value? "in", g.value? "config"⟩

def clusters? (g : Given) : Option Clusters := do
  return ⟨← g.value? "clusters", g.isSet "virtual-boundary"⟩

def build? (name : String) (g : Given) : Option Command := do
  let input ← input? g
  match name with
  | "info" => return .info input (g.isSet "json") (g.isSet "histogram")
  | "compress" => return .compress input (← g.value? "out")
  | "evaluate" => return .evaluate input (← g.value? "partition") (g.value? "out")
  | "coarsen" => return .coarsen input (← clusters? g) (← g.value? "out") (g.value? "map")
  | "project" =>
    return .project input (← clusters? g) (← g.value? "partition") (← g.value? "out")
  | _ => none

/-- The command of a command line. The flag `--verbose` may also stand before the command. -/
def parse? (arguments : List String) : Option Command := do
  let arguments := match arguments with
    | "--verbose" :: rest => rest
    | arguments => arguments
  match arguments with
  | [] => none
  | name :: rest => build? name (← scan? (← names? name) {} rest)

end Multilevel.CommandLine
