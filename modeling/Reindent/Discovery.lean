import Reindent.Config.Error
import Reindent.Glob.Walk

/-!
# Reindent.Discovery

The files of a run.

* `Target`             — a file, and whether it was named or found.
* `Discovery.find`     — the files that path arguments and patterns name.
* `Discovery.targets`  — all of them as targets.

A file that is named is always a target. Directories are searched with the patterns, and of what
these name the YAML files are kept that no exclude fits.
-/

namespace Reindent

structure Target where
  path : Path
  /-- Named as an argument. -/
  explicit : Bool
  deriving DecidableEq, Repr

structure Discovery where
  /-- The arguments that are no directories. -/
  named : List Path
  /-- The files that patterns name in directories. -/
  found : List Path
  deriving DecidableEq, Repr

namespace Discovery

def defaultPatterns : List Text :=
  ["**/*.yml", "**/*.yaml"].map String.toList

/-- Keeps the first of neighbouring spellings of one path. -/
def dropRepeats : List Path → List Path
  | [] => []
  | path :: rest =>
    match dropRepeats rest with
    | next :: others => if path.same next then path :: others else path :: next :: others
    | [] => [path]

/-- The paths in order, each in the spelling that came first. -/
def pathSet (paths : List Path) : List Path :=
  dropRepeats (paths.mergeSort fun p q => (Path.order p q).isLE)

/-- Reads a pattern. -/
def readPattern (pattern : Text) : Except ConfigError (List Glob.Token) :=
  (Glob.parse pattern).mapError (.badPattern pattern)

/-- Some exclude fits the path, seen from `root` if it is below. -/
def isExcluded (excludes : List (List Glob.Token)) (root path : Path) : Bool :=
  let text := ((path.below? root).getD path).spelling
  excludes.any fun tokens => Glob.accepts tokens text

/-- The places where the search starts. -/
def starts (root : Path) (paths : List Path) : List Path :=
  if paths.isEmpty then [root] else paths.map root.join

/-- The paths that a pattern names in the directory `start`. -/
def search (tree : Tree) (start : Path) (pattern : Text) : Except ConfigError (List Path) :=
  (Glob.walk tree (start.join ⟨pattern⟩).spelling).mapError (.badPattern pattern)

/-- The paths that some pattern names in some start that is a directory. -/
def searchAll (tree : Tree) (starts : List Path) (patterns : List Text) :
    Except ConfigError (List Path) := do
  let found ← (starts.filter tree.isDirectory).mapM fun start =>
    patterns.mapM fun pattern => search tree start pattern
  return found.flatten.flatten

/-- The files that `paths` name under `root`, each group in order. Without paths the root is
searched. -/
def find (tree : Tree) (root : Path) (paths : List Path) (patterns exclude : List Text) :
    Except ConfigError Discovery := do
  let excludes ← exclude.mapM readPattern
  let starts := starts root paths
  let found ← searchAll tree starts patterns
  return {
    named := pathSet (starts.filter fun start => !tree.isDirectory start)
    found := pathSet (found.filter fun path =>
      tree.isFile path && path.isYaml && !isExcluded excludes root path) }

/-- The files as targets: those that are named come first and are not repeated. -/
def targets (discovery : Discovery) : List Target :=
  let found := discovery.found.filter fun path => !discovery.named.any path.same
  discovery.named.map (⟨·, true⟩) ++ found.map (⟨·, false⟩)

end Discovery

end Reindent
