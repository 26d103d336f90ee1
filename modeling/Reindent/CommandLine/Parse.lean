import Reindent.CommandLine.Basic
import Reindent.CommandLine.Token
import Reindent.Text.Number

/-!
# Reindent.CommandLine.Parse

Reads command lines.

* `Reading`          — what the words so far have said.
* `Reading.resolve`  — accepts the operands or the option value that were read last.
* `Invocation.parse` — the invocation that a list of words asks for.

Operands and separate option values are judged late: when the next option of the command is met,
or at the end. An unknown option is reported before a bad value that precedes it.
-/

namespace Reindent

/-- The place in a command line: before the command, or among the arguments of one. -/
inductive Level where
  | top
  | version
  | fix
  deriving DecidableEq, Repr

inductive Flag where
  | verbose
  | help
  | programVersion
  | write
  | diff
  | check
  | documentStart
  deriving DecidableEq, Repr

/-- Options with a value. -/
inductive Setting where
  | repoRoot
  | output
  | jobs
  deriving DecidableEq, Repr

inductive Param where
  | flag (flag : Flag)
  | setting (setting : Setting)
  deriving DecidableEq, Repr

namespace Level

/-- The options of each level, with their long names and letters. -/
def params : Level → List (String × Option Char × Param)
  | .top =>
    [("verbose", some 'v', .flag .verbose), ("help", some 'h', .flag .help),
      ("version", some 'V', .flag .programVersion)]
  | .version => [("verbose", some 'v', .flag .verbose), ("help", some 'h', .flag .help)]
  | .fix =>
    [("verbose", some 'v', .flag .verbose), ("help", some 'h', .flag .help),
      ("repo-root", none, .setting .repoRoot), ("write", none, .flag .write),
      ("diff", none, .flag .diff), ("check", none, .flag .check),
      ("output", none, .setting .output), ("jobs", some 'j', .setting .jobs),
      ("document-start", none, .flag .documentStart)]

def long? (level : Level) (name : Text) : Option Param :=
  (level.params.find? fun (long, _) => long.toList == name).map fun (_, _, param) => param

def short? (level : Level) (letter : Char) : Option Param :=
  (level.params.find? fun (_, short, _) => short == some letter).map fun (_, _, param) => param

end Level

/-- What has been read last and is still to be judged. -/
inductive Pending where
  | nothing
  | operands (paths : List Text)
  /-- An option, whose value may be the next word. -/
  | awaiting (setting : Setting)
  | value (setting : Setting) (value : Text)
  deriving DecidableEq, Repr

structure Reading where
  verbose : Nat := 0
  request : FixRequest := {}
  pending : Pending := .nothing
  deriving DecidableEq, Repr

namespace Reading

/-- Gives an option its value. An option that has one already is an error before the new value
is looked at. -/
def assign (reading : Reading) (setting : Setting) (value : Text) : Except UsageError Reading :=
  let request := reading.request
  match setting with
  | .repoRoot =>
    if request.repoRoot.isSome then .error .repeatedOption
    else .ok { reading with request := { request with repoRoot := some value } }
  | .output =>
    if request.output.isSome then .error .repeatedOption
    else .ok { reading with request := { request with output := some value } }
  | .jobs =>
    if request.jobs.isSome then .error .repeatedOption
    else
      match Text.word? value with
      | some n => .ok { reading with request := { request with jobs := some n } }
      | none => .error .malformedValue

/-- Judges what was read last. -/
def resolve (reading : Reading) : Except UsageError Reading :=
  let settled := { reading with pending := .nothing }
  match reading.pending with
  | .nothing => .ok settled
  | .operands paths =>
    if paths.any List.isEmpty then .error .missingValue
    else
      let request := settled.request
      .ok { settled with request := { request with paths := request.paths ++ paths } }
  | .awaiting _ => .error .missingValue
  | .value setting value => settled.assign setting value

def raise (reading : Reading) (given : Bool) (request : FixRequest) : Except UsageError Reading :=
  if given then .error .repeatedOption else .ok { reading with request }

/-- The verbosity stops counting here. -/
def maxVerbose : Nat := 255

/-- Accepts a flag. -/
def acceptFlag (reading : Reading) (flag : Flag) : Except UsageError Reading := do
  let reading ← reading.resolve
  let request := reading.request
  match flag with
  | .verbose => return { reading with verbose := min (reading.verbose + 1) maxVerbose }
  | .help => throw .helpRequested
  | .programVersion => throw .versionRequested
  | .write => reading.raise request.write { request with write := true }
  | .diff => reading.raise request.diff { request with diff := true }
  | .check => reading.raise request.check { request with check := true }
  | .documentStart =>
    reading.raise request.documentStart { request with documentStart := true }

/-- Accepts an option with the value attached to it, or else to be followed by one. -/
def acceptSetting (reading : Reading) (setting : Setting) (attached : Option Text) :
    Except UsageError Reading := do
  let reading ← reading.resolve
  match attached with
  | some value => reading.assign setting value
  | none => return { reading with pending := .awaiting setting }

def acceptLong (reading : Reading) (level : Level) (name : Text) (value : Option Text) :
    Except UsageError Reading :=
  match level.long? name, value with
  | none, _ => .error .unknownArgument
  | some (.setting setting), value => reading.acceptSetting setting value
  | some (.flag _), some _ => .error .surplusValue
  | some (.flag flag), none => reading.acceptFlag flag

/-- Accepts letters after a dash: flags, and at the end possibly an option. The rest of the
letters is that option's value, after an equals sign if there is one. -/
def acceptShort (level : Level) : Reading → Text → Except UsageError Reading
  | reading, [] => .ok reading
  | reading, letter :: rest =>
    match level.short? letter with
    | none => .error .unknownArgument
    | some (.flag flag) => do acceptShort level (← reading.acceptFlag flag) rest
    | some (.setting setting) =>
      let attached :=
        match rest with
        | [] => none
        | '=' :: value => some value
        | value => some value
      reading.acceptSetting setting attached

/-- Accepts an operand of `fix`. -/
def acceptOperand (reading : Reading) (path : Text) : Except UsageError Reading :=
  match reading.pending with
  | .operands paths => .ok { reading with pending := .operands (paths ++ [path]) }
  | _ => do return { (← reading.resolve) with pending := .operands [path] }

/-- Accepts a word that is no option: the value of the option before it, or an operand. -/
def acceptWord (reading : Reading) (level : Level) (word : Text) : Except UsageError Reading :=
  match reading.pending, level with
  | .awaiting setting, _ => .ok { reading with pending := .value setting word }
  | _, .fix => reading.acceptOperand word
  | _, _ => .error .unknownArgument

/-- The arguments of a command, `escaped` telling whether `--` has been met. -/
def arguments (level : Level) : Bool → Reading → List Text → Except UsageError Reading
  | _, reading, [] => reading.resolve
  | true, reading, word :: rest =>
    match level with
    | .fix => do arguments level true (← reading.acceptOperand word) rest
    | _ => .error .unknownArgument
  | false, reading, word :: rest =>
    match Token.ofText word with
    | .escape => arguments level true reading rest
    | .long name value => do arguments level false (← reading.acceptLong level name value) rest
    | .short letters => do arguments level false (← acceptShort level reading letters) rest
    | .word word => do arguments level false (← reading.acceptWord level word) rest

end Reading

namespace Invocation

def commandNames : List Text :=
  ["fix", "version", "help"].map String.toList

/-- The command that `help` is asked about has to exist. -/
def helpAbout : List Text → UsageError
  | [] => .helpRequested
  | [name] => if commandNames.contains name then .helpRequested else .unknownCommand
  | _ => .unknownCommand

/-- The invocation of a command, `verbose` being the verbosity asked for before it. One that is
asked for after the command replaces it. -/
def ofReading (verbose : Nat) (command : FixRequest → Command) (reading : Reading) : Invocation :=
  { verbose := if reading.verbose > 0 then reading.verbose else verbose
    command := command reading.request }

/-- The words from the command on, `reading` being what was said before it. -/
def dispatch (reading : Reading) (name : Text) (rest : List Text) : Except UsageError Invocation :=
  if name = "fix".toList then
    (Reading.arguments .fix false {} rest).map (ofReading reading.verbose .fix)
  else if name = "version".toList then
    (Reading.arguments .version false {} rest).map (ofReading reading.verbose fun _ => .version)
  else if name = "help".toList then .error (helpAbout rest)
  else .error .unknownCommand

/-- The end of a command line that named no command. -/
def withoutCommand (reading : Reading) : UsageError :=
  if reading.verbose = 0 then .nothingGiven else .missingCommand

/-- The first word after `--` at the top. A command cannot stand there. -/
def afterEscape (reading : Reading) : List Text → UsageError
  | [] => withoutCommand reading
  | word :: _ => if commandNames.contains word then .unknownArgument else .unknownCommand

def parseFrom : Reading → List Text → Except UsageError Invocation
  | reading, [] => .error (withoutCommand reading)
  | reading, word :: rest =>
    match Token.ofText word with
    | .escape => .error (afterEscape reading rest)
    | .long name value => do parseFrom (← reading.acceptLong .top name value) rest
    | .short letters => do parseFrom (← Reading.acceptShort .top reading letters) rest
    | .word word => dispatch reading word rest

/-- The invocation that the words of a command line ask for. -/
def parse (words : List Text) : Except UsageError Invocation :=
  parseFrom {} words

end Invocation

end Reindent
