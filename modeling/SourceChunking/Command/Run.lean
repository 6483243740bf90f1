import SourceChunking.Command.Arguments
import SourceChunking.Command.Benchmark
import SourceChunking.Log.Handlers

/-! # Commands

Three commands: chunk a file, list the languages, time a source tree. The options
before a command set the level of logging; an unknown command is noticed before
they take effect, and a misused one after.
-/
namespace SourceChunking

/-- What a command that ran to its end leaves behind. -/
structure CommandResult where
  printed : List Printed
  document : String
deriving Repr, DecidableEq

/-- What stops a command that was used as it should be. -/
inductive CommandStop where
  | unreadable (e : FileError)
  | unchunkable (e : ChunkingError)
  | badPattern (e : GlobError)
  | badTime (e : TimeError)

/-- How a command ends: with a result, with a refusal, or stopped on its way. -/
inductive CommandOutcome where
  | done (r : CommandResult)
  | refused (e : CommandError)
  | stopped (e : CommandStop)

def CommandStop.ofFile : ChunkFileError → CommandStop
  | .unreadable e => .unreadable e
  | .unchunkable e => .unchunkable e

def CommandStop.ofBenchmark : Benchmark.Problem → CommandStop
  | .badPattern e => .badPattern e
  | .unsearchable e => .unreadable e
  | .unchunkable e => .unchunkable e
  | .badTime e => .badTime e

namespace Command

def help : CommandOption := ⟨"--help", none, false⟩

def groupOptions : List CommandOption := [⟨"--log-level", none, true⟩, help]

def chunkOptions : List CommandOption :=
  [⟨"--language", some 'l', true⟩, ⟨"--max-chunk-size", none, true⟩,
    ⟨"--overlap-size", none, true⟩, ⟨"--json", none, false⟩, ⟨"--strict", none, false⟩, help]

def benchmarkOptions : List CommandOption := [⟨"--pattern", some 'p', true⟩, help]

def levelNames : List String := ["debug", "info", "warning", "error"]

def helpText : String :=
  "Usage: [--log-level LEVEL] COMMAND\n\nCommands:\n" ++
    "  chunk FILE_PATH       Chunk a single file\n" ++
    "  languages             List languages chunked along syntax boundaries\n" ++
    "  benchmark DIRECTORY   Chunk every matching file and report timings\n"

def helped : CommandOutcome := .done ⟨[], helpText⟩

/-- Settings given on the command line as integers. -/
def integerOptions : List String := ["--max-chunk-size", "--overlap-size"]

/-- The first option, in order of use, whose value is no integer where one is
needed. -/
def badInteger? (p : ParsedArguments) : Option CommandError :=
  p.names.findSome? fun name =>
    if integerOptions.contains name then
      match p.value? name with
      | some v => if (Text.integer? (Text.ofString v)).isSome then none else some (.notInteger name v)
      | none => none
    else none

def integerValue? (p : ParsedArguments) (name : String) : Option Int :=
  (p.value? name).bind fun v => Text.integer? (Text.ofString v)

/-- What is wrong with what stands at a place. -/
def fileProblem (store : Store) (place : List String) : Option String :=
  if store.isDirectory place then some "is a directory" else none

def directoryProblem (store : Store) (place : List String) : Option String :=
  if store.isFile place then some "is a file" else none

/-- The only argument of a command, which names something in the store, and its
place there. -/
def theArgument (store : Store) (label : String) (problem : Store → List String → Option String)
    (p : ParsedArguments) : Except CommandOutcome (String × List String) :=
  match p.arguments with
  | [] => .error (.refused (.missingArgument label))
  | path :: extra =>
    match store.locate path with
    | .error .nullCharacter => .error (.stopped (.unreadable (.absent .nullCharacter path)))
    | .error _ => .error (.refused (.badPath label path "does not exist"))
    | .ok place =>
      match problem store place with
      | some problem => .error (.refused (.badPath label path problem))
      | none =>
        if extra.isEmpty then .ok (path, place) else .error (.refused (.extraArguments extra))

/-- Changes a setting if a value is given for it. -/
def adjust (field : String) (value : Option Int) (s : Settings) : Checked Settings :=
  match value with
  | some n => s.assign field (.int n)
  | none => .ok s

/-- The language of a file: given, or suggested by its name. -/
def languageFor (p : ParsedArguments) (path : Path) : Text :=
  match p.value? "--language" with
  | some given => if given.isEmpty then Language.ofPath path else Text.ofString given
  | none => Language.ofPath path

def nonempty? (t : Text) : Option Text := if t.isEmpty then none else some t

def chunkFileAt (w : Workplace) (p : ParsedArguments) (file : String) : Logged CommandOutcome :=
  let path := Path.ofString file
  let language := languageFor p path
  if p.isUsed "--strict" && !Language.isSupported language then
    pure (.refused (.failed (.unsupportedLanguage
      (Value.ofString (Report.orMark (Text.shown language) path.name)))))
  else
    let settings := (adjust "max_chunk_size" (integerValue? p "--max-chunk-size") w.shared).andThen
      (adjust "overlap_size" (integerValue? p "--overlap-size"))
    match settings with
    | .refused issues => pure (.refused (.badSettings issues))
    | .ok settings => do
      let (result, _) ← chunkFile settings w.parser w.splitter w.inst w.store path
        (nonempty? language)
      match result with
      | .error e => pure (.stopped (.ofFile e))
      | .ok cs =>
        if p.isUsed "--json" then pure (.done ⟨[], Report.document cs⟩)
        else pure (.done ⟨[.line (Report.chunkHeading path.toString (Text.shown language) cs.length),
          .table (Report.chunkTable cs)], ""⟩)

def chunk (w : Workplace) (args : List String) : Logged CommandOutcome :=
  match CommandOption.parse chunkOptions true args with
  | .error e => pure (.refused e)
  | .ok p =>
    if p.isUsed help.name then pure helped
    else match badInteger? p with
      | some e => pure (.refused e)
      | none =>
        match theArgument w.store "FILE_PATH" fileProblem p with
        | .error outcome => pure outcome
        | .ok (file, _) => chunkFileAt w p file

def languages (args : List String) : CommandOutcome :=
  match CommandOption.parse [help] true args with
  | .error e => .refused e
  | .ok p =>
    if p.isUsed help.name then helped
    else if p.arguments.isEmpty then .done ⟨Report.languages, ""⟩
    else .refused (.extraArguments p.arguments)

def benchmark (w : Workplace) (args : List String) : Logged CommandOutcome :=
  match CommandOption.parse benchmarkOptions true args with
  | .error e => pure (.refused e)
  | .ok p =>
    if p.isUsed help.name then pure helped
    else match theArgument w.store "DIRECTORY" directoryProblem p with
      | .error outcome => pure outcome
      | .ok (directory, place) => do
        match ← Benchmark.run w (Path.ofString directory) place (p.values "--pattern") with
        | .ok printed => pure (.done ⟨printed, ""⟩)
        | .error e => pure (.stopped (.ofBenchmark e))

def names : List String := ["chunk", "languages", "benchmark"]

/-- The command of a name, still to be given its arguments. -/
def named? (w : Workplace) (name : String) : Option (List String → Logged CommandOutcome) :=
  if name = "chunk" then some (chunk w)
  else if name = "languages" then some fun args => pure (languages args)
  else if name = "benchmark" then some (benchmark w)
  else none

/-- The level asked for, in any case, as it is spelt in full. -/
def readLevel (p : ParsedArguments) : Except CommandError (Option String) :=
  match p.value? "--log-level" with
  | none => .ok none
  | some v =>
    match levelNames.find? fun name => Text.ofString name == Text.lower (Text.ofString v) with
    | some name => .ok (some name.toUpper)
    | none => .error (.notAmong "--log-level" v levelNames)

/-- Sets logging up for a level, if there is one. -/
def applyLevel (level : Option String) (s : Logging) : Logging :=
  match level with
  | some _ => (s.setup ⟨level, true, false, true⟩).state
  | none => s

/-- The outcome for a name that no command has. If the name looks like an option,
which it can after two hyphens, it is read as one first. -/
def unknown (name : String) (rest : List String) : CommandOutcome :=
  let refusal := .refused (.noSuchCommand name (Text.suggestions name names))
  match CommandOption.parse groupOptions false (name :: rest) with
  | .error e => .refused e
  | .ok p =>
    if p.isUsed help.name then helped
    else match readLevel p with
      | .error e => .refused e
      | .ok _ => refusal

/-- Runs a command line. -/
def run (w : Workplace) (log : Logging) (args : List String) :
    Logged (CommandOutcome × Logging) :=
  match CommandOption.parse groupOptions false args with
  | .error e => pure (.refused e, log)
  | .ok p =>
    if p.isUsed help.name then pure (helped, log)
    else match readLevel p with
      | .error e => pure (.refused e, log)
      | .ok level =>
        match p.arguments with
        | [] => pure (.refused .missingCommand, log)
        | name :: rest =>
          match named? w name with
          | none => pure (unknown name rest, log)
          | some command => do
            let outcome ← command rest
            pure (outcome, applyLevel level log)

end Command
end SourceChunking
