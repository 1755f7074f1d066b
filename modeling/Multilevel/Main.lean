import Multilevel.CommandLine.Run

namespace Multilevel.CommandLine

def Command.inputs : Command → List String
  | .info input _ _ => paths input
  | .compress input _ => paths input
  | .evaluate input partition _ => partition :: paths input
  | .coarsen input clusters _ _ => clusters.file :: paths input
  | .project input clusters partition _ => clusters.file :: partition :: paths input
where
  paths (input : Input) : List String := input.graph :: input.settings.toList

def Command.outputs : Command → List String
  | .info .. => []
  | .compress _ out => [out]
  | .evaluate _ _ out => out.toList
  | .coarsen _ _ out map => out :: map.toList
  | .project _ _ _ out => [out]

def Failure.text : Failure → String
  | usage => "the arguments are not understood"
  | fault cause => cause.report.text
  | inaccessible cause => cause.report.detail.message
  | settings => "the settings do not describe weight factors"
  | clusterToken line token cause => clusterMessage line token cause

def Failure.status : Failure → UInt32
  | usage => 2
  | _ => 1

/-- The path of the folder that a file is in, empty for the working folder. -/
def parent (path : String) : String :=
  String.ofList ((path.toList.reverse.dropWhile (· ≠ '/')).drop 1).reverse

/-- The folder with the files that a command reads, and the folders it writes to, where they
exist. -/
def load (command : Command) : IO Folder := do
  let mut folder : Folder := {}
  for path in command.inputs do
    try
      let bytes ← IO.FS.readBinFile path
      folder := folder.put path (.ofBytes bytes.toList)
    catch _ => pure ()
  for path in command.outputs do
    let parent := parent path
    try
      let _ ← IO.FS.realPath parent
      folder := folder.addFolder parent
    catch _ => pure ()
  return folder

def store (files : Dictionary String Source) : IO Unit := do
  for (path, source) in files do
    let parent := parent path
    unless parent.isEmpty do IO.FS.createDirAll parent
    match source with
    | .text s => IO.FS.writeFile path s
    | .bytes b => IO.FS.writeBinFile path (ByteArray.mk b.toArray)

def execute (arguments : List String) : IO UInt32 := do
  let folder ← match parse? arguments with
    | some command => load command
    | none => pure {}
  match run folder arguments with
  | .error failure =>
    IO.eprintln failure.text
    return failure.status
  | .ok outcome =>
    store (outcome.folder.changesFrom folder)
    IO.print outcome.output
    return 0

end Multilevel.CommandLine

def main (arguments : List String) : IO UInt32 := Multilevel.CommandLine.execute arguments
