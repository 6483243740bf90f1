import SourceChunking.Value

/-! # Log records

Nothing is written while the library works: a computation that has something to
report returns its records beside its value, in the order in which they arose.
Taking the value of a logged computation commutes with sequencing, so a statement
about values may forget the records.
-/
namespace SourceChunking

namespace Level

def debug : Int := 10
def info : Int := 20
def warning : Int := 30
def error : Int := 40
def critical : Int := 50

/-- The name that a line shows for a level. -/
def name (level : Int) : String :=
  if level = 0 then "NOTSET"
  else if level = debug then "DEBUG"
  else if level = info then "INFO"
  else if level = warning then "WARNING"
  else if level = error then "ERROR"
  else if level = critical then "CRITICAL"
  else "Level " ++ toString level

end Level

structure Record where
  level : Int
  source : String
  message : String
  context : List (String × Value)

namespace Record

/-- What every record holds besides its context, under names of its own. -/
def ownFields : List String :=
  ["name", "msg", "args", "levelname", "levelno", "pathname", "filename", "module", "exc_info",
    "exc_text", "stack_info", "lineno", "funcName", "created", "msecs", "relativeCreated",
    "thread", "threadName", "processName", "process", "message", "asctime"]

/-- The first name in the context that the record needs for itself. -/
def clash? (r : Record) : Option String :=
  (r.context.map Prod.fst).find? ownFields.contains

/-- A context as it follows the message. -/
def contextText (context : List (String × Value)) : String :=
  String.join (context.map fun (key, v) => " | " ++ key ++ "=" ++ v.shown)

/-- Level, source, message and context on one line. -/
def line (r : Record) : String :=
  Level.name r.level ++ " | " ++ r.source ++ " | " ++ r.message ++ contextText r.context

def paddedLevel (level : Int) : String :=
  let s := Level.name level
  s ++ String.ofList (List.replicate (8 - s.length) ' ')

/-- The same with the level in a column of eight, as handlers write it after the
time. They leave out the name of the running task. -/
def columnLine (r : Record) : String :=
  paddedLevel r.level ++ " | " ++ r.source ++ " | " ++ r.message ++
    contextText (r.context.filter fun entry => entry.1 != "taskName")

end Record

structure Logged (α : Type) where
  value : α
  records : List Record

namespace Logged

instance : Monad Logged where
  pure a := ⟨a, []⟩
  bind x f := ⟨(f x.value).value, x.records ++ (f x.value).records⟩

def log (r : Record) : Logged Unit := ⟨(), [r]⟩

def debug (source message : String) (context : List (String × Value)) : Logged Unit :=
  log ⟨Level.debug, source, message, context⟩

def warning (source message : String) (context : List (String × Value)) : Logged Unit :=
  log ⟨Level.warning, source, message, context⟩

@[simp] theorem value_pure {α : Type} (a : α) : (pure a : Logged α).value = a := rfl

@[simp] theorem value_bind {α β : Type} (x : Logged α) (f : α → Logged β) :
    (x >>= f).value = (f x.value).value := rfl

end Logged
end SourceChunking
