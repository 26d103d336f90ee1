import Reindent.Glob.Basic
import Reindent.Tree.Basic

/-!
# Reindent.Glob.Walk

The paths in a tree that a pattern names.

* `Glob.Step`   — what a pattern says about one component.
* `Glob.expand` — the paths from a place that fit the steps.
* `Glob.walk`   — the paths that fit a pattern.

A step without wildcards is looked up as it is written, so it can lead through links to the
directory itself and to its holder. Other steps are compared with the names in a directory.
-/

namespace Reindent

namespace Glob

inductive Step where
  /-- A component without wildcards. -/
  | literal (name : Text)
  /-- Any number of components. -/
  | components
  | pattern (tokens : List Token)
  deriving DecidableEq, Repr

namespace Step

/-- The text of a pattern without wildcards. -/
def literal? (tokens : List Token) : Option Text :=
  tokens.mapM fun token =>
    match token with
    | .char c => some c
    | _ => none

def ofTokens (tokens : List Token) : Step :=
  match literal? tokens with
  | some name => .literal name
  | none => if tokens.contains .anyComponents then .components else .pattern tokens

/-- A name in a directory fits the step. -/
def fits (step : Step) (name : Text) : Bool :=
  match step with
  | .literal text => name == text
  | .components => true
  | .pattern tokens => accepts tokens name

end Step

/-- The path is the directory where relative paths start, which is left out of longer paths. -/
def isHere (path : Path) : Bool :=
  path.components == [.here]

def child (path : Path) (name : Text) : Path :=
  if isHere path then ⟨name⟩ else path.join ⟨name⟩

/-- A component that is looked up exists below `path`. -/
def leads (tree : Tree) (path : Path) (name : Text) : Bool :=
  if name == ['.'] || name == ['.', '.'] then tree.isDirectory path
  else tree.pathExists (child path name)

/-- The names of everything below the directory `path`, each from there. -/
def namesBelow (tree : Tree) (path : Path) : List (List Text) :=
  match tree.locate path with
  | .ok location => if tree.isDirectoryAt location then tree.below location else []
  | .error _ => []

/-- Links of a directory to itself and to its holder, which only a pattern that starts with a dot
can name. -/
def dotLinks (tokens : List Token) : List Text :=
  if tokens.head? == some (.char '.') then
    [['.', '.'], ['.']].filter (accepts tokens)
  else []

/-- The paths from `path` that fit the steps; only directories if `directories` is set. -/
def expand (tree : Tree) (directories : Bool) : List Step → Path → List Path
  | [], path => if directories && !tree.isDirectory path then [] else [path]
  | .literal name :: rest, path =>
    if leads tree path name then expand tree directories rest (child path name) else []
  | .components :: .components :: rest, path =>
    expand tree directories (.components :: rest) path
  | [.components], path =>
    ((namesBelow tree path).map fun names => names.foldl child path).filter tree.isDirectory
  | .components :: step :: rest, path =>
    (namesBelow tree path).flatMap fun names =>
      if names.getLast?.any step.fits then expand tree directories rest (names.foldl child path)
      else []
  | .pattern tokens :: rest, path =>
    let links :=
      if tree.isDirectory path then
        (dotLinks tokens).flatMap fun link => expand tree directories rest (path.join ⟨link⟩)
      else []
    links ++ (namesBelow tree path).flatMap fun names =>
      match names with
      | [name] =>
        if accepts tokens name then expand tree directories rest (child path name) else []
      | _ => []

/-- The components of a pattern, without the slashes in front and without one at the end. -/
def pieces (pattern : Text) : List Text :=
  let fields := Text.fields '/' (pattern.dropWhile (· == '/'))
  if fields.getLast? == some [] then fields.dropLast else fields

/-- The paths in the tree that fit the pattern. A pattern that ends with a slash names only
directories. -/
def walk (tree : Tree) (pattern : Text) : Except Error (List Path) := do
  let _ ← parse pattern
  let steps ← (pieces pattern).mapM fun piece => (parse piece).map Step.ofTokens
  let start : Path := if pattern.head? == some '/' then ⟨['/']⟩ else ⟨['.']⟩
  return expand tree (pattern.getLast? == some '/') steps start

end Glob

end Reindent
