import Multilevel.Hmetis.Partition

/-!
# Folders

The files that a program works on, by their paths. A path is followed one name at a time, and each
step starts from a folder that exists. A file can be written only into such a folder.
-/
namespace Multilevel

/-- Where a path leads: the names on the way, innermost first. The root has an empty name, and
places outside of the working folder begin with two points. -/
abbrev Place := List String

namespace Place

def path (p : Place) : String := "/".intercalate p.reverse

def start (path : String) : Place := if path.toList.head? = some '/' then [""] else []

def up : Place → Place
  | [] => [".."]
  | [""] => [""]
  | ".." :: rest => ".." :: ".." :: rest
  | _ :: rest => rest

def step (p : Place) (name : String) : Place :=
  if name = "" ∨ name = "." then p else if name = ".." then p.up else name :: p

/-- The names of a path. What follows the last slash is one of them only if there is something. -/
def names (path : String) : List String :=
  (Text.segments (· = '/') path.toList).map String.ofList

def isOpen (path : String) : Bool := path.toList.getLast? = some '/'

/-- The places on the way of a path, the last one at the front. -/
def along (path : String) : List Place :=
  (names path).foldl (fun ps name => ((ps.head?.getD (start path)).step name) :: ps) []

end Place

structure Folder where
  files : Dictionary String Source := []
  folders : List String := []

namespace Folder

/-! ### Following paths -/

def file? (f : Folder) (p : Place) : Option Source := Dictionary.get? f.files p.path

/-- Whether there is a folder at a place. The working folder and the root always exist. -/
def isFolder (f : Folder) (p : Place) : Bool := p.path.isEmpty || f.folders.contains p.path

def enter (f : Folder) (p : Place) : Except Fault Place :=
  if f.isFolder p then .ok p
  else if (f.file? p).isSome then .error .notFolder
  else .error .notFound

def walk (f : Folder) (p : Place) (names : List String) : Except Fault Place :=
  names.foldlM (fun p name => do return (← f.enter p).step name) p

def read (f : Folder) (path : String) : Except Fault Source := do
  if path.isEmpty then .error .notFound
  else
    let p ← f.walk (Place.start path) (Place.names path)
    let p ← if Place.isOpen path then f.enter p else pure p
    match f.file? p with
    | some source => return source
    | none => .error (if f.isFolder p then .isFolder else .notFound)

def readText (f : Folder) (path : String) : Except Fault String := do
  match ← f.read path with
  | .text s => return s
  | .bytes _ => .error .notText

def write (f : Folder) (path : String) (text : String) : Except Fault Folder := do
  if path.isEmpty then .error .notFound
  else
    match (Place.names path).reverse.dropWhile (·.isEmpty) with
    | [] => .error .isFolder
    | name :: way =>
      let parent ← f.enter (← f.walk (Place.start path) way.reverse)
      let p := parent.step name
      if Place.isOpen path || name = "." || name = ".." || f.isFolder p then .error .isFolder
      else return { f with files := Dictionary.put p.path (.text text) f.files }

def makeWay (f : Folder) (p : Place) : List String → Except Fault Folder
  | [] => .ok f
  | name :: rest =>
    let next := p.step name
    if f.isFolder next then f.makeWay next rest
    else if (f.file? next).isSome then .error (if rest.isEmpty then .alreadyExists else .notFolder)
    else { f with folders := next.path :: f.folders }.makeWay next rest

def deliver (f : Folder) (path : String) (text : String) : Except Fault Folder := do
  let names := (Place.names path).filter fun name => !name.isEmpty && name ≠ "."
  (← f.makeWay (Place.start path) names.dropLast).write path text

/-! ### Setting up -/

def addFolder (f : Folder) (path : String) : Folder :=
  { f with folders := (Place.along path).map Place.path ++ f.folders }

def put (f : Folder) (path : String) (source : Source) : Folder :=
  match Place.along path with
  | [] => f
  | p :: way => {
    files := Dictionary.put p.path source f.files
    folders := way.map Place.path ++ f.folders }

/-! ### Graphs and partitions -/

def readGraph {α : Type} [One α] [Numeral α] (f : Folder) (path : String) (factors : Factors α) :
    Except Fault (Hypergraph α) :=
  (do Hmetis.readGraph (← f.read path) factors).mapError (.inFile path)

def saveGraph {α : Type} [Numeral α] (f : Folder) (path : String) (g : Hypergraph α) :
    Except Fault Folder :=
  (f.write path (Hmetis.writeGraph g)).mapError (.inFile path)

def readPartition (f : Folder) (path : String) : Except Fault Partition :=
  (do Hmetis.readPartition (← f.read path)).mapError (.inFile path)

def savePartition (f : Folder) (path : String) (p : Partition) : Except Fault Folder :=
  (f.write path (Hmetis.writePartition p)).mapError (.inFile path)

def changesFrom (f old : Folder) : Dictionary String Source :=
  f.files.filter fun (path, source) => Dictionary.get? old.files path != some source

end Folder
end Multilevel
