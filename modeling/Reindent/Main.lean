import Reindent.CommandLine.Parse
import Reindent.CommandLine.Run

/-!
# Reindent.Main

The program. It takes a picture of the directories that a command line names, runs the command on
the picture, and writes back the files that differ afterwards.
-/

namespace Reindent

namespace Picture

def fileName (location : Location) : String :=
  "/" ++ String.ofList (['/'].intercalate location)

/-- The place that a path leads to by its spelling. -/
def placeOf (workingDirectory : Location) (path : Path) : Location :=
  (path.segments.filterMap Component.ofSegment?).foldl
    (fun location component =>
      match component with
      | .up => location.dropLast
      | .name name => location ++ [name]
      | _ => location)
    (if path.isAbsolute then [] else workingDirectory)

/-- A run reads no other files than configuration files and YAML files. -/
def isRead (location : Location) : Bool :=
  let name : Path := ⟨location.getLast?.getD []⟩
  name.isYaml || Settings.fileNames.any fun (_, file) => file == name

/-- The node at a place, if there is one. -/
def node? (location : Location) : IO (Option Node) := do
  match ← (IO.FS.realPath (fileName location)).toBaseIO with
  | .error _ => return none
  | .ok path =>
    if ← path.isDir then return some .directory
    else if isRead location then
      match ← (IO.FS.readBinFile path).toBaseIO with
      | .ok content => return some (.file content)
      | .error _ => return none
    else return some (.file .empty)

/-- The nodes at the given places. -/
def nodes (locations : List Location) : IO (List (Location × Node)) := do
  let nodes ← locations.mapM fun location => return (← node? location).map (location, ·)
  return nodes.filterMap id

/-- The node at a place and everything below it. -/
partial def load (location : Location) : IO (List (Location × Node)) := do
  let here ← nodes [location]
  if here.any fun (_, node) => node.isDirectory then
    let path ← IO.FS.realPath (fileName location)
    let entries ← path.readDir
    let below ← entries.toList.mapM fun entry => load (location ++ [entry.fileName.toList])
    return here ++ below.flatten
  else return here

/-- The tree in which a request looks for its repository root. -/
def rootTree (workingDirectory : Location) (start : Path) : IO Tree := do
  let names := Path.ofString ".git" :: Settings.fileNames.map Prod.snd
  let paths := start.ancestors.flatMap fun directory => names.map directory.join
  return .ofNodes workingDirectory (← nodes (paths.map (placeOf workingDirectory)))

/-- The tree for a request: its repository root, and the paths that it names. -/
def tree (workingDirectory : Location) (request : FixRequest) : IO Tree := do
  let start : Path := ⟨request.repoRoot.getD ['.']⟩
  let root := Settings.findRoot (← rootTree workingDirectory start) start
  let paths := root :: request.paths.map fun path => root.join ⟨path⟩
  let loaded ← (paths.map (placeOf workingDirectory)).mapM load
  return .ofNodes workingDirectory loaded.flatten

/-- Writes the files that differ. -/
def writeBack (before after : Tree) : IO Unit :=
  (before.entries.zip after.entries).forM fun ((location, old), (_, new)) =>
    match old, new with
    | .file old, .file new => do
      unless old.data == new.data do IO.FS.writeBinFile (fileName location) new
    | _, _ => return

end Picture

/-- Runs a command line and gives the exit code. -/
def runProgram (words : List String) : IO UInt32 := do
  match Invocation.parse (words.map String.toList) with
  | .error e =>
    if e.isRequest then IO.println e.message else IO.eprintln e.message
    return if e.isRequest then 0 else 2
  | .ok invocation =>
    let surroundings : Surroundings :=
      { colour := (← IO.getEnv "NO_COLOR").isNone, log := (← IO.getEnv "RUST_LOG") != some "off" }
    let here : Path := .ofString (← IO.currentDir).toString
    let workingDirectory := Picture.placeOf [] here
    let before ←
      match invocation.command with
      | .version => pure { workingDirectory }
      | .fix request => Picture.tree workingDirectory request
    let result := invocation.run surroundings before
    Picture.writeBack before result.tree
    (invocation.noticeLines surroundings result).forM IO.eprintln
    result.output.forM IO.println
    return result.exitCode.toUInt32

end Reindent

def main (words : List String) : IO UInt32 :=
  Reindent.runProgram words
