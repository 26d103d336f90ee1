import Reindent.Text.Fields

/-!
# Reindent.Path.Basic

Paths as they are spelled, and the components that a spelling stands for.

* `Path`            — a spelling.
* `Path.components` — its components; repeated slashes and inner dots leave none.
* `Path.join`       — a path below another.
* `Path.ancestors`  — the path and the spellings of what holds it.
* `Path.below?`     — the rest of a path inside another.

Paths are ordered and compared by their components, so two spellings can be the same path.
-/

namespace Reindent

structure Path where
  spelling : Text
  deriving DecidableEq, Repr

inductive Component where
  | root
  /-- A dot at the start of a relative path. -/
  | here
  | up
  | name (name : Text)
  deriving DecidableEq, Repr

namespace Component

def text : Component → Text
  | .root => []
  | .here => ['.']
  | .up => ['.', '.']
  | .name n => n

/-- The kinds of components come in this order. -/
def rank : Component → Nat
  | root => 0
  | here => 1
  | up => 2
  | .name _ => 3

def order : Component → Component → Ordering
  | .name a, .name b => Text.order a b
  | a, b => compare a.rank b.rank

/-- The component that a segment after the start of a path stands for, if it stands for any. -/
def ofSegment? (segment : Text) : Option Component :=
  match segment with
  | [] => none
  | ['.'] => none
  | ['.', '.'] => some up
  | _ => some (name segment)

end Component

namespace Path

def ofString (s : String) : Path :=
  ⟨s.toList⟩

def isAbsolute (path : Path) : Bool :=
  path.spelling.head? == some '/'

/-- The parts between the slashes. -/
def segments (path : Path) : List Text :=
  path.spelling.fields '/'

/-- The segment that starts an absolute path or one that starts with a dot. -/
def start? (path : Path) : Option Text :=
  if path.isAbsolute || path.segments.head? == some ['.'] then path.segments.head? else none

/-- The segments after the start. -/
def body (path : Path) : List Text :=
  if path.start?.isSome then path.segments.tail else path.segments

def startComponent? (path : Path) : Option Component :=
  path.start?.map fun start => if start.isEmpty then .root else .here

def components (path : Path) : List Component :=
  path.startComponent?.toList ++ path.body.filterMap Component.ofSegment?

/-- The same path by its components. -/
def same (p q : Path) : Bool :=
  p.components == q.components

def orderComponents : List Component → List Component → Ordering
  | [], [] => .eq
  | [], _ :: _ => .lt
  | _ :: _, [] => .gt
  | a :: as, b :: bs => (Component.order a b).then (orderComponents as bs)

def order (p q : Path) : Ordering :=
  orderComponents p.components q.components

/-- `tail` below `base`; an absolute `tail` stands for itself. -/
def join (base tail : Path) : Path :=
  if tail.isAbsolute || base.spelling.isEmpty then tail
  else if base.spelling.getLast? == some '/' then ⟨base.spelling ++ tail.spelling⟩
  else ⟨base.spelling ++ '/' :: tail.spelling⟩

/-! ### Names -/

/-- The last component, if it is a name. -/
def fileName? (path : Path) : Option Text :=
  match path.components.getLast? with
  | some (.name name) => some name
  | _ => none

/-- What follows the last dot of the file name; a dot in front does not count. -/
def extension? (path : Path) : Option Text := do
  let name ← path.fileName?
  let fields := Text.fields '.' name
  guard (fields.length > 1 && !(fields.length == 2 && fields.head? == some []))
  fields.getLast?

/-- The name ends in `.yml` or `.yaml`, in any case. -/
def isYaml (path : Path) : Bool :=
  path.extension?.any fun extension =>
    let lower := extension.map Char.toLower
    lower == "yml".toList || lower == "yaml".toList

/-! ### Parts of a spelling -/

/-- A segment that stands for no component. -/
def isIdle (segment : Text) : Bool :=
  (Component.ofSegment? segment).isNone

/-- The spelling of a start and the segments after it. -/
def assemble (start : Option Text) (body : List Text) : Path :=
  match start with
  | none => ⟨['/'].intercalate body⟩
  | some start =>
    if body.isEmpty then ⟨if start.isEmpty then ['/'] else start⟩
    else ⟨['/'].intercalate (start :: body)⟩

/-- Removes idle segments from the end. -/
def trimBack (body : List Text) : List Text :=
  (body.reverse.dropWhile isIdle).reverse

/-- The spellings of the start and its holder. -/
def startAncestors (start : Option Text) : List Path :=
  match start with
  | some ['.'] => [⟨['.']⟩, ⟨[]⟩]
  | start => [assemble start []]

/-- The spellings of a path with the given segments after its start, the last one first, and of
what holds it. -/
def ancestorsFrom (start : Option Text) : List Text → List Path
  | [] => startAncestors start
  | segment :: rest =>
    if isIdle segment then ancestorsFrom start rest
    else assemble start (segment :: rest).reverse :: ancestorsFrom start rest

/-- The path, then what holds it, and so on outwards, each by its spelling. -/
def ancestors (path : Path) : List Path :=
  path :: (ancestorsFrom path.start? path.body.reverse).tail

/-- Drops the first `count` segments that stand for components. -/
def dropComponents : Nat → List Text → List Text
  | 0, body => body
  | _ + 1, [] => []
  | count + 1, segment :: rest =>
    if isIdle segment then dropComponents (count + 1) rest else dropComponents count rest

/-- The spelling of the rest of `path` inside `base`, if its components start with those of
`base`. -/
def below? (path base : Path) : Option Path :=
  let skipped := base.components
  if skipped.isPrefixOf path.components then
    if skipped.isEmpty then some (assemble path.start? (trimBack path.body))
    else
      let body := dropComponents (skipped.length - path.start?.toList.length) path.body
      some (assemble none (trimBack (body.dropWhile isIdle)))
  else none

/-! ### Display -/

/-- How to get from `base` to `path`: up as often as needed, then down. -/
def relativeTo : List Component → List Component → List Component
  | [], path => path
  | base, [] => base.map fun _ => .up
  | b :: base, p :: path =>
    if b = p then relativeTo base path else .up :: base.map (fun _ => .up) ++ p :: path

/-- The path as seen from the working directory, a list of names from the root. -/
def shown (path : Path) (workingDirectory : List Text) : Text :=
  let parts :=
    if path.isAbsolute then
      relativeTo (.root :: workingDirectory.map .name) path.components
    else path.components.filter (· != .here)
  if parts.isEmpty then ['.'] else ['/'].intercalate (parts.map Component.text)

end Path

end Reindent
