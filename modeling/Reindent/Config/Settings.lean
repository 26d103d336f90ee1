import Reindent.Discovery
import Reindent.Toml.Document
import Reindent.Yaml.Value

/-!
# Reindent.Config.Settings

The settings of a run.

* `Overrides`        — what the command line sets.
* `Settings.resolve` — the command line before the configuration file before the defaults.

The file is looked for in the repository root, which is the nearest directory outwards from the
start that holds a configuration file or a repository.
-/

namespace Reindent

inductive OutputMode where
  | human
  | json
  deriving DecidableEq, Repr

namespace OutputMode

def name : OutputMode → String
  | human => "human"
  | json => "json"

def ofText? (text : Text) : Option OutputMode :=
  [human, json].find? fun mode => mode.name.toList == text

end OutputMode

structure Overrides where
  /-- Where the search for the repository root starts. -/
  repoRoot : Option Text := none
  output : Option Text := none
  fix : FixSettings := {}
  deriving DecidableEq, Repr

structure Settings where
  repoRoot : Path
  configFile : Option Path
  output : OutputMode
  write : Bool
  diff : Bool
  check : Bool
  /-- The number of workers; without it there is one per core. -/
  jobs : Option Nat
  documentStart : Bool
  patterns : List Text
  exclude : List Text
  keys : RegistryExtension
  deriving DecidableEq, Repr

namespace Settings

/-- The names of configuration files. The first one that is there is read. -/
def fileNames : List (ConfigFormat × Path) :=
  [(.toml, .ofString "indentfix.toml"), (.yaml, .ofString "indentfix.yaml"),
    (.yaml, .ofString "indentfix.yml")]

/-- The directory holds a configuration file or a repository. -/
def isRoot (tree : Tree) (directory : Path) : Bool :=
  fileNames.any (fun (_, name) => tree.pathExists (directory.join name)) ||
    tree.pathExists (directory.join (.ofString ".git"))

/-- The repository root outwards from `start`; `start` itself if there is none. -/
def findRoot (tree : Tree) (start : Path) : Path :=
  (start.ancestors.find? (isRoot tree)).getD start

/-- The configuration file in a directory. -/
def findFile? (tree : Tree) (root : Path) : Option (ConfigFormat × Path) :=
  (fileNames.map fun (format, name) => (format, root.join name)).find? fun (_, path) =>
    tree.isFile path

/-- The settings in a text. -/
def ofText? (format : ConfigFormat) (text : Text) : Option FileConfig :=
  match format with
  | .toml => (Toml.document? text).bind (FileConfig.ofValue? Toml.reader)
  | .yaml => (Yaml.document? text).bind fun node => FileConfig.ofValue? (Yaml.reader node) node

/-- The settings in a file. -/
def load (tree : Tree) (format : ConfigFormat) (path : Path) : Except ConfigError FileConfig :=
  match tree.read path with
  | .error e => .error (.unreadable path e.message)
  | .ok content =>
    match Text.ofBytes? content with
    | none => .error (.unreadable path "stream did not contain valid UTF-8")
    | some text =>
      match ofText? format text with
      | none => .error (.invalid format path)
      | some config => .ok config

/-- The settings of a command line and a file. -/
def merge (overrides : Overrides) (repoRoot : Path) (configFile : Option Path)
    (config : FileConfig) : Except ConfigError Settings :=
  let mode := (overrides.output.orElse fun _ => config.output).getD OutputMode.human.name.toList
  let fix := config.fix.getD {}
  let flag (read : FixSettings → Option Bool) : Bool :=
    ((read overrides.fix).orElse fun _ => read fix).getD false
  match OutputMode.ofText? mode with
  | none => .error (.unknownOutput mode)
  | some output =>
    .ok {
      repoRoot, configFile, output
      write := flag FixSettings.write
      diff := flag FixSettings.diff
      check := flag FixSettings.check
      jobs := (overrides.fix.jobs.orElse fun _ => fix.jobs).filter (0 < ·)
      documentStart := flag FixSettings.documentStart
      patterns := (config.patterns.filter (!·.isEmpty)).getD Discovery.defaultPatterns
      exclude := config.exclude.getD []
      keys := config.keys.getD {} }

def resolve (tree : Tree) (overrides : Overrides) : Except ConfigError Settings :=
  let root := findRoot tree ⟨overrides.repoRoot.getD ['.']⟩
  match findFile? tree root with
  | none => merge overrides root none {}
  | some (format, path) =>
    match load tree format path with
    | .error e => .error e
    | .ok config => merge overrides root (some path) config

/-- Files are written only where neither differences nor a check are asked for. -/
def writes (settings : Settings) : Bool :=
  settings.write && !settings.diff && !settings.check

end Settings

end Reindent
