import SourceChunking.Value

/-! # Failures of the engine

What can go wrong on the way from a text to its chunks, and the one place where
the wording stands. The parts of a failure are data values, shown as they are in
its message.
-/
namespace SourceChunking

inductive Failure where
  | general (parts : List Value)
  | parseUnavailable (language reason : Value)
  | fieldUnreadable (field nodeKind : Value)
  | unsupportedLanguage (language : Value)

namespace Failure

def message : Failure → String
  | .general [] => ""
  | .general [part] => part.shown
  | .general parts => "(" ++ ", ".intercalate (Value.literals parts) ++ ")"
  | .parseUnavailable language reason =>
    "No usable syntax tree for " ++ language.shown ++ " source: " ++ reason.shown
  | .fieldUnreadable field nodeKind =>
    "Failed to extract " ++ field.shown ++
      if nodeKind.isSomething then " for " ++ nodeKind.shown else ""
  | .unsupportedLanguage language => "No grammar registered for language: " ++ language.shown

/-- The parts that can be asked for by name. -/
def attributes : Failure → List (String × Value)
  | .general _ => []
  | .parseUnavailable language reason => [("language", language), ("reason", reason)]
  | .fieldUnreadable field nodeKind => [("field_name", field), ("node_kind", nodeKind)]
  | .unsupportedLanguage language => [("language", language)]

end Failure

inductive FailureKind where
  | general
  | parseUnavailable
  | fieldUnreadable
  | unsupportedLanguage
deriving Repr, DecidableEq

def FailureKind.name : FailureKind → String
  | .general => "ChunkingError"
  | .parseUnavailable => "ParseUnavailableError"
  | .fieldUnreadable => "SymbolExtractionError"
  | .unsupportedLanguage => "UnsupportedLanguageError"

def Failure.kind : Failure → FailureKind
  | .general _ => .general
  | .parseUnavailable .. => .parseUnavailable
  | .fieldUnreadable .. => .fieldUnreadable
  | .unsupportedLanguage _ => .unsupportedLanguage

/-- A wrong number of parts for a kind of failure. -/
inductive PartsError where
  | tooFew (kind : FailureKind) (lacking : List String)
  | tooMany (kind : FailureKind) (least most given : Nat)
deriving Repr, DecidableEq

namespace PartsError

/-- Counts include the failure itself, which is the first thing handed over. -/
def message : PartsError → String
  | .tooFew kind lacking =>
    kind.name ++ s!".__init__() missing {lacking.length} required positional argument" ++
      (if lacking.length = 1 then "" else "s") ++ ": " ++
      " and ".intercalate (lacking.map Text.quotedString)
  | .tooMany kind least most given =>
    let range := if least = most then s!"{most + 1}" else s!"from {least + 1} to {most + 1}"
    kind.name ++ s!".__init__() takes {range} positional arguments but {given + 1} were given"

end PartsError

namespace FailureKind

def make : FailureKind → List Value → Except PartsError Failure
  | .general, parts => .ok (.general parts)
  | .parseUnavailable, [] => .error (.tooFew .parseUnavailable ["language", "reason"])
  | .parseUnavailable, [_] => .error (.tooFew .parseUnavailable ["reason"])
  | .parseUnavailable, [language, reason] => .ok (.parseUnavailable language reason)
  | .parseUnavailable, parts => .error (.tooMany .parseUnavailable 2 2 parts.length)
  | .fieldUnreadable, [] => .error (.tooFew .fieldUnreadable ["field_name"])
  | .fieldUnreadable, [field] => .ok (.fieldUnreadable field .null)
  | .fieldUnreadable, [field, nodeKind] => .ok (.fieldUnreadable field nodeKind)
  | .fieldUnreadable, parts => .error (.tooMany .fieldUnreadable 1 2 parts.length)
  | .unsupportedLanguage, [] => .error (.tooFew .unsupportedLanguage ["language"])
  | .unsupportedLanguage, [language] => .ok (.unsupportedLanguage language)
  | .unsupportedLanguage, parts => .error (.tooMany .unsupportedLanguage 1 1 parts.length)

end FailureKind
end SourceChunking
