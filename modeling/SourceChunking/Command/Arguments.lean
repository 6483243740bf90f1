import SourceChunking.Settings.Basic
import SourceChunking.Failure
import SourceChunking.Text.Similarity

/-! # Command lines

Options are recognised by name, take a value or none, and may stand anywhere among
the arguments of a command. Values are converted in the order in which the options
were used, before the arguments; the first problem ends the command. An unknown
name is answered with the known ones that are close to it.
-/
namespace SourceChunking

structure CommandOption where
  name : String
  short : Option Char
  takesValue : Bool
deriving Repr, DecidableEq

inductive CommandError where
  | noSuchOption (name : String) (close : List String)
  | valueMissing (name : String)
  | valueUnexpected (name : String)
  | notAmong (option value : String) (choices : List String)
  | notInteger (option value : String)
  | badPath (argument path problem : String)
  | missingArgument (argument : String)
  | extraArguments (given : List String)
  | noSuchCommand (name : String) (close : List String)
  | missingCommand
  | badSettings (issues : List Issue)
  | failed (e : Failure)

namespace CommandError

def hint : List String → String
  | [] => ""
  | [name] => " Did you mean " ++ Text.quotedString name ++ "?"
  | names => " (Did you mean one of: " ++ ", ".intercalate (names.map Text.quotedString) ++ "?)"

def message : CommandError → String
  | .noSuchOption name close => "No such option " ++ Text.quotedString name ++ "." ++ hint close
  | .valueMissing name => "Option " ++ Text.quotedString name ++ " requires an argument."
  | .valueUnexpected name => "Option " ++ Text.quotedString name ++ " does not take a value."
  | .notAmong option value choices =>
    s!"Invalid value for '{option}': " ++ Text.quotedString value ++ " is not one of " ++
      ", ".intercalate (choices.map Text.quotedString) ++ "."
  | .notInteger option value =>
    s!"Invalid value for '{option}': " ++ Text.quotedString value ++ " is not a valid integer."
  | .badPath argument path problem =>
    let kind := if argument = "DIRECTORY" then "Directory " else "File "
    s!"Invalid value for '{argument}': " ++ kind ++ Text.quotedString path ++ " " ++ problem ++ "."
  | .missingArgument argument => s!"Missing argument '{argument}'."
  | .extraArguments given =>
    "Got unexpected extra argument" ++ (if given.length = 1 then "" else "s") ++ " (" ++
      " ".intercalate given ++ ")"
  | .noSuchCommand name close => "No such command " ++ Text.quotedString name ++ "." ++ hint close
  | .missingCommand => "Missing command."
  | .badSettings issues => "Invalid value: " ++ Issue.reportAll Settings.recordName issues
  | .failed e => e.message

/-- Misuse ends with two, a refusal to carry on with one. -/
def exitCode : CommandError → Nat
  | .failed _ => 1
  | _ => 2

end CommandError

structure OptionUse where
  name : String
  value : Option String
deriving Repr, DecidableEq

structure ParsedArguments where
  uses : List OptionUse
  arguments : List String
deriving Repr, DecidableEq

namespace ParsedArguments

def withUses (uses : List OptionUse) (p : ParsedArguments) : ParsedArguments :=
  { p with uses := uses ++ p.uses }

def withArgument (argument : String) (p : ParsedArguments) : ParsedArguments :=
  { p with arguments := argument :: p.arguments }

def value? (p : ParsedArguments) (name : String) : Option String :=
  ((p.uses.reverse.find? fun u => u.name == name).bind (·.value))

def values (p : ParsedArguments) (name : String) : List String :=
  (p.uses.filter fun u => u.name == name).filterMap (·.value)

def isUsed (p : ParsedArguments) (name : String) : Bool := p.uses.any fun u => u.name == name

def names (p : ParsedArguments) : List String := (p.uses.map (·.name)).eraseDups

end ParsedArguments

/-- The uses that one word makes, and the option that still waits for its value. -/
abbrev WordReading := Except CommandError (List OptionUse × Option (CommandOption × String))

namespace CommandOption

/-- Reads a cluster of short options; a value may follow directly. -/
def readShort (options : List CommandOption) : List Char → WordReading
  | [] => .ok ([], none)
  | c :: rest =>
    let spelled := String.ofList ['-', c]
    match options.find? fun o => o.short == some c with
    | none => .error (.noSuchOption spelled [])
    | some o =>
      if o.takesValue then
        if rest.isEmpty then .ok ([], some (o, spelled))
        else .ok ([⟨o.name, some (String.ofList rest)⟩], none)
      else (readShort options rest).map fun r => (⟨o.name, none⟩ :: r.1, r.2)

/-- Reads a word that starts with a hyphen. A value may follow an equals sign. -/
def readWord (options : List CommandOption) (word : String) : WordReading :=
  let t := word.toList
  let name := String.ofList (t.takeWhile (· != '='))
  let given := match t.dropWhile (· != '=') with
    | [] => none
    | _ :: value => some (String.ofList value)
  match options.find? fun o => o.name == name with
  | some o =>
    match o.takesValue, given with
    | true, some value => .ok ([⟨o.name, some value⟩], none)
    | true, none => .ok ([], some (o, name))
    | false, some _ => .error (.valueUnexpected name)
    | false, none => .ok ([⟨o.name, none⟩], none)
  | none =>
    if ['-', '-'].isPrefixOf t then
      .error (.noSuchOption name (Text.suggestions name (options.map (·.name))))
    else readShort options (t.drop 1)

def isOptionLike (word : String) : Bool := word.startsWith "-" && 1 < word.length

/-- Reads a command line. Unless options and arguments may be mixed, the first
argument ends the options; two hyphens always do. -/
def parse (options : List CommandOption) (mixed : Bool) :
    List String → Except CommandError ParsedArguments
  | [] => .ok ⟨[], []⟩
  | word :: rest =>
    if word = "--" then .ok ⟨[], rest⟩
    else if isOptionLike word then
      match readWord options word with
      | .error e => .error e
      | .ok (uses, none) => (parse options mixed rest).map (.withUses uses)
      | .ok (uses, some (o, spelled)) =>
        match rest with
        | [] => .error (.valueMissing spelled)
        | value :: rest =>
          (parse options mixed rest).map (.withUses (uses ++ [⟨o.name, some value⟩]))
    else if mixed then (parse options mixed rest).map (.withArgument word)
    else .ok ⟨[], word :: rest⟩

end CommandOption
end SourceChunking
