import SourceChunking.Binary
import SourceChunking.Log.Handlers

/-! # Timed operations

An operation is reported when it starts and when it ends. The report of its end
gives the time it took, in seconds to three places, before the rest of the context.
A context that repeats what a report is given anyway is refused.
-/
namespace SourceChunking

namespace Operation

def started (source operation : String) (context : List (String × Value)) : Record :=
  ⟨Level.info, source, operation ++ " started", context⟩

/-- Seconds to three places. -/
def seconds (microseconds : Int) : Binary := (secondsOf microseconds).roundTo 3

/-- A context of its own for the duration replaces the one measured. -/
def withDuration (microseconds : Int) (context : List (String × Value)) : List (String × Value) :=
  let duration := (Value.get? "duration_seconds" context).getD
    (.real (.finite (seconds microseconds)))
  ("duration_seconds", duration) :: context.filter fun entry => entry.1 != "duration_seconds"

def ended (source operation : String) (microseconds : Int) (success : Bool)
    (context : List (String × Value)) : Record :=
  ⟨if success then Level.info else Level.error, source,
    operation ++ (if success then " completed" else " failed"), withDuration microseconds context⟩

/-- The first name in a context that is among the given ones. -/
def repeated? (names : List String) (context : List (String × Value)) : Option String :=
  (context.map Prod.fst).find? names.contains

end Operation

namespace Logging

/-- Logs a report, unless its context repeats one of its arguments. -/
def report (s : Logging) (name : String) (arguments : List String)
    (context : List (String × Value)) (r : Record) : LoggingResult :=
  (s.setup .plain).andThen fun s =>
    match Operation.repeated? arguments context with
    | some argument => s.refused (.givenTwice name argument)
    | none => s.dispatch r

def startOperation (s : Logging) (source operation : String) (context : List (String × Value)) :
    LoggingResult :=
  s.report "log_operation_start" ["logger", "operation"] context
    (Operation.started source operation context)

def endOperation (s : Logging) (source operation : String) (microseconds : Int) (success : Bool)
    (context : List (String × Value)) : LoggingResult :=
  s.report "log_operation_end" ["logger", "operation", "start_time", "success"] context
    (Operation.ended source operation microseconds success context)

end Logging
end SourceChunking
