import Reindent.Path.Basic

/-!
# Reindent.Tree.Basic

A tree of files and directories, and the directory where paths start.

* `Tree`          — the tree.
* `Tree.locate`   — the place that a path leads to.
* `Tree.read`     — the content of a file.
* `Tree.below`    — everything under a directory.
* `Tree.write`    — the tree with a file replaced.
-/

namespace Reindent

/-- The names on the way from the root of the tree. -/
abbrev Location := List Text

inductive Node where
  | file (content : ByteArray)
  | directory

namespace Node

def isDirectory : Node → Bool
  | directory => true
  | file _ => false

end Node

structure Tree where
  /-- Everything in the tree but its root. -/
  entries : List (Location × Node) := []
  /-- Where relative paths start. -/
  workingDirectory : Location := []

/-- Why a path leads nowhere. -/
inductive LookupError where
  | notFound
  /-- The path goes through a file. -/
  | notDirectory
  | nameTooLong
  /-- The path leads to a directory where a file has to be. -/
  | directory
  deriving DecidableEq, Repr

namespace LookupError

def message : LookupError → String
  | notFound => "No such file or directory (os error 2)"
  | notDirectory => "Not a directory (os error 20)"
  | nameTooLong => "File name too long (os error 36)"
  | directory => "Is a directory (os error 21)"

end LookupError

namespace Tree

/-- The most bytes that a name and a path can have. -/
def maxName : Nat := 255
def maxPath : Nat := 4095

def nodeAt? (tree : Tree) (location : Location) : Option Node :=
  match location with
  | [] => some .directory
  | _ => tree.entries.lookup location

def isDirectoryAt (tree : Tree) (location : Location) : Bool :=
  (tree.nodeAt? location).any Node.isDirectory

/-- Goes one segment on from a place that exists. Above the root is the root. -/
def step (tree : Tree) (location : Location) (segment : Text) : Except LookupError Location :=
  if !tree.isDirectoryAt location then .error .notDirectory
  else
    match Component.ofSegment? segment with
    | some .up => .ok location.dropLast
    | some (.name name) =>
      if name.width > maxName then .error .nameTooLong
      else if (tree.nodeAt? (location ++ [name])).isSome then .ok (location ++ [name])
      else .error .notFound
    | _ => .ok location

/-- The place that a path leads to. -/
def locate (tree : Tree) (path : Path) : Except LookupError Location :=
  if path.spelling.isEmpty then .error .notFound
  else if path.spelling.width > maxPath then .error .nameTooLong
  else
    path.segments.foldlM tree.step (if path.isAbsolute then [] else tree.workingDirectory)

def node? (tree : Tree) (path : Path) : Except LookupError Node :=
  match tree.locate path with
  | .error e => .error e
  | .ok location =>
    match tree.nodeAt? location with
    | some node => .ok node
    | none => .error .notFound

def pathExists (tree : Tree) (path : Path) : Bool :=
  (tree.node? path).toOption.isSome

def isDirectory (tree : Tree) (path : Path) : Bool :=
  (tree.node? path).toOption.any Node.isDirectory

def isFile (tree : Tree) (path : Path) : Bool :=
  (tree.node? path).toOption.any fun node => !node.isDirectory

/-- The content of the file that a path leads to. -/
def read (tree : Tree) (path : Path) : Except LookupError ByteArray :=
  match tree.node? path with
  | .error e => .error e
  | .ok (.file content) => .ok content
  | .ok .directory => .error .directory

/-! ### Contents of directories -/

/-- The order of locations: name by name, what holds a thing before it. -/
def orderNames : List Text → List Text → Ordering
  | [], [] => .eq
  | [], _ :: _ => .lt
  | _ :: _, [] => .gt
  | a :: as, b :: bs => (Text.order a b).then (orderNames as bs)

/-- The names on the way from `location` to everything under it, in order. -/
def below (tree : Tree) (location : Location) : List (List Text) :=
  let names := tree.entries.filterMap fun (place, _) =>
    if location.isPrefixOf place && location.length < place.length then
      some (place.drop location.length)
    else none
  names.mergeSort fun a b => (orderNames a b).isLE

/-! ### Making and changing trees -/

/-- The places that hold `location`, outermost first, without the root. -/
def holders : Location → List Location
  | [] | [_] => []
  | name :: rest => [name] :: (holders rest).map (name :: ·)

/-- Adds a node and the directories that hold it. -/
def insert (tree : Tree) (location : Location) (node : Node) : Tree :=
  let missing := (holders location).filter fun place => (tree.nodeAt? place).isNone
  let others := tree.entries.filter fun (place, _) => place != location
  { tree with
    entries :=
      others ++ missing.map (·, .directory) ++
        if location.isEmpty then [] else [(location, node)] }

/-- The tree of the given nodes, `workingDirectory` among them. -/
def ofNodes (workingDirectory : Location) (nodes : List (Location × Node)) : Tree :=
  nodes.foldl (fun tree (location, node) => tree.insert location node)
    (Tree.insert { workingDirectory } workingDirectory .directory)

/-- Replaces the content of the file at `location`. -/
def write (tree : Tree) (location : Location) (content : ByteArray) : Tree :=
  { tree with
    entries := tree.entries.map fun (place, node) =>
      if place = location then (place, .file content) else (place, node) }

/-- The files under the working directory, by their names from there, in order. -/
def files (tree : Tree) : List (List Text × ByteArray) :=
  (tree.below tree.workingDirectory).filterMap fun names =>
    match tree.nodeAt? (tree.workingDirectory ++ names) with
    | some (.file content) => some (names, content)
    | _ => none

end Tree

end Reindent
