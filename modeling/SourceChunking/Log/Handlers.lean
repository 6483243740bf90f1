import SourceChunking.Log.Date
import SourceChunking.Log.Record

/-! # Where records go

The logging state holds a level, the handlers in the order in which they are
served, and the files written so far. A setup takes effect when it is the first one
or when it is forced; it then replaces all handlers by one for the console and,
on request, one for a dated file. A setup that names no proper level, and a record
whose context takes a name that records need, are refused and change nothing.
-/
namespace SourceChunking

inductive HandlerKind where
  | richConsole
  | plainConsole
  | file (name : String)
deriving Repr, DecidableEq

structure Handler where
  kind : HandlerKind
  level : Int
deriving Repr, DecidableEq

structure LoggingRequest where
  level : Option String
  rich : Bool
  toFile : Bool
  force : Bool
deriving Repr, DecidableEq

def LoggingRequest.plain : LoggingRequest := ⟨none, true, false, false⟩

inductive LoggingProblem where
  | unknownLevel (text : String)
  | noLevel (text : String)
  | clash (field : String)
  | givenTwice (report argument : String)
  | badTime (e : TimeError)
deriving Repr, DecidableEq

def LoggingProblem.message : LoggingProblem → String
  | .unknownLevel text => "Unknown level: " ++ Text.quotedString text
  | .noLevel text => "Level not an integer or a valid string: " ++ text
  | .clash field =>
    Text.quotedString ("Attempt to overwrite " ++ Text.quotedString field ++ " in LogRecord")
  | .givenTwice report argument =>
    report ++ "() got multiple values for argument " ++ Text.quotedString argument
  | .badTime e => e.message

structure Logging where
  level : Int
  handlers : List Handler
  fileHandler : Option Handler
  initialized : Bool
  environment : Option String
  time : Int
  files : List (String × String)
deriving Repr, DecidableEq

/-- The state after a request, what went to the console as plain text, and the
problem if there was one. -/
structure LoggingResult where
  state : Logging
  output : String
  problem : Option LoggingProblem
deriving Repr, DecidableEq

def LoggingResult.andThen (r : LoggingResult) (next : Logging → LoggingResult) : LoggingResult :=
  match r.problem with
  | some _ => r
  | none => { next r.state with output := r.output ++ (next r.state).output }

namespace Logging

def packageName : String := "codechunker"

def fresh : Logging := ⟨Level.warning, [], none, false, none, 0, []⟩

def quiet (s : Logging) : LoggingResult := ⟨s, "", none⟩

def refused (s : Logging) (p : LoggingProblem) : LoggingResult := ⟨s, "", some p⟩

def capitals (c : Char) : List Char :=
  if c = 'ı' then ['I']
  else if c = 'ſ' then ['S']
  else if c = 'ﬅ' ∨ c = 'ﬆ' then ['S', 'T']
  else [c.toUpper]

def basicFormat : String := "%(levelname)s:%(name)s:%(message)s"

def styles : String :=
  "\x7b'%': (<class 'logging.PercentStyle'>, '%(levelname)s:%(name)s:%(message)s'), " ++
    "'\x7b': (<class 'logging.StrFormatStyle'>, " ++
    "'\x7blevelname\x7d:\x7bname\x7d:\x7bmessage\x7d'), " ++
    "'$': (<class 'logging.StringTemplateStyle'>, " ++
    "'$\x7blevelname\x7d:$\x7bname\x7d:$\x7bmessage\x7d')\x7d"

/-- The level that a name stands for, in any case; unknown names warn. Two names
stand for something that is no level. -/
def levelNamed (name : String) : Except LoggingProblem Int :=
  let name := String.ofList (name.toList.flatMap capitals)
  if name = "DEBUG" then .ok Level.debug
  else if name = "INFO" then .ok Level.info
  else if name = "ERROR" then .ok Level.error
  else if name = "CRITICAL" ∨ name = "FATAL" then .ok Level.critical
  else if name = "NOTSET" then .ok 0
  else if name = "BASIC_FORMAT" then .error (.unknownLevel basicFormat)
  else if name = "_STYLES" then .error (.noLevel styles)
  else .ok Level.warning

def chosenName (s : Logging) (request : LoggingRequest) : String :=
  match request.level with
  | some name => if name.isEmpty then s.environment.getD "WARNING" else name
  | none => s.environment.getD "WARNING"

/-- The level below which records are dropped; a level that is not set is inherited
as that of warnings. -/
def threshold (s : Logging) : Int := if s.level = 0 then Level.warning else s.level

def fileName (s : Logging) : String := packageName ++ "-" ++ (Date.ofTime s.time).shown ++ ".log"

def append (name text : String) : List (String × String) → List (String × String)
  | [] => [(name, text)]
  | (key, content) :: rest =>
    if key = name then (key, content ++ text) :: rest else (key, content) :: append name text rest

/-- Serves one handler; the second part is what goes to the console as plain text. -/
def serve (r : Record) (out : Logging × String) (h : Handler) : Logging × String :=
  if r.level < h.level then out
  else match h.kind with
    | .richConsole => out
    | .plainConsole => (out.1, out.2 ++ r.columnLine ++ "\n")
    | .file name => ({ out.1 with files := append name (r.columnLine ++ "\n") out.1.files }, out.2)

def isOwn (source : String) : Bool :=
  source == packageName || source.startsWith (packageName ++ ".")

def thresholdFor (s : Logging) (source : String) : Int :=
  if isOwn source then s.threshold else Level.warning

def unhandled (r : Record) : String :=
  if Level.warning ≤ r.level then r.message ++ "\n" else ""

/-- Serves all handlers. Without any, warnings and worse show their bare message. -/
def deliver (s : Logging) (r : Record) : Logging × String :=
  if !isOwn r.source || s.handlers.isEmpty then (s, unhandled r)
  else s.handlers.foldl (serve r) (s, "")

def dispatch (s : Logging) (r : Record) : LoggingResult :=
  if r.level < s.thresholdFor r.source then s.quiet
  else match r.clash? with
    | some field => s.refused (.clash field)
    | none => ⟨(s.deliver r).1, (s.deliver r).2, none⟩

def setLevel (s : Logging) (level : Int) : Logging := { s with level := level }

def clearHandlers (s : Logging) : Logging := { s with handlers := [] }

def addHandler (s : Logging) (h : Handler) : Logging := { s with handlers := s.handlers ++ [h] }

/-- Lets go of the file that the last setup opened; what was written to it stays. -/
def closeFile (s : Logging) : Logging := { s with fileHandler := none }

def openFile (s : Logging) (level : Int) : Logging :=
  let file : Handler := ⟨.file s.fileName, level⟩
  addHandler { s with fileHandler := some file, files := append s.fileName "" s.files } file

/-- The state that an effective setup makes for a level, before it is reported. -/
def configured (s : Logging) (request : LoggingRequest) (level : Int) : Logging :=
  let s := (s.setLevel level).clearHandlers
  let s := s.addHandler ⟨if request.rich then .richConsole else .plainConsole, level⟩
  let s := s.closeFile
  let s := if request.toFile then s.openFile level else s
  { s with initialized := true }

def initializedRecord (s : Logging) (request : LoggingRequest) : Record :=
  ⟨Level.debug, packageName, "CodeChunker logging initialized",
    [("log_level", Value.ofString (s.chosenName request)), ("log_to_file", .bool request.toFile)]⟩

def isEffective (s : Logging) (request : LoggingRequest) : Bool := !s.initialized || request.force

def setup (s : Logging) (request : LoggingRequest) : LoggingResult :=
  if s.isEffective request then
    match levelNamed (s.chosenName request) with
    | .error p => s.refused p
    | .ok level => (s.configured request level).dispatch (s.initializedRecord request)
  else s.quiet

/-- Asking for a logger sets logging up if nothing has done so before. -/
def emit (s : Logging) (r : Record) : LoggingResult :=
  (s.setup .plain).andThen fun s => s.dispatch r

def setEnvironment (s : Logging) (name : Option String) : Logging := { s with environment := name }

def advance (s : Logging) (lapse : Lapse) : LoggingResult :=
  match timeAfter s.time lapse with
  | .ok time => quiet { s with time := time }
  | .error e => s.refused (.badTime e)

end Logging
end SourceChunking
