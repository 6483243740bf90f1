import SourceChunking.Text.Integer
import SourceChunking.Value

/-! # Reading records from data

A reader turns a data value into a typed one or reports every issue it finds, in
field order, each with the path to the offending value. Fields that a record does
not know are ignored. Checks that concern a whole record run only when all of its
fields could be read.
-/
namespace SourceChunking

inductive Step where
  | key (name : String)
  | item (index : Nat)
deriving Repr, DecidableEq

/-- What can go wrong with the names that every record has for its own use. Some
take no value or only one of a kind, and others miss what the record needs once
something else stands there. -/
inductive RecordFault where
  | noSetter (name owner : String)
  | notWritable (name owner : String)
  | notDictionary (given : String)
  | notClass (given : String)
  | notInstance (given wanted : String)
  | noAttribute (given name : String)
  | notCallable (given : String)
deriving Repr, DecidableEq

def RecordFault.message : RecordFault → String
  | .noSetter name owner => s!"property '{name}' of '{owner}' object has no setter"
  | .notWritable name owner => s!"attribute '{name}' of '{owner}' objects is not writable"
  | .notDictionary given => s!"__dict__ must be set to a dictionary, not a '{given}'"
  | .notClass given => s!"__class__ must be set to a class, not '{given}' object"
  | .notInstance given wanted => s!"'{given}' object is not an instance of '{wanted}'"
  | .noAttribute given name => s!"'{given}' object has no attribute '{name}'"
  | .notCallable given => s!"'{given}' object is not callable"

inductive Cause where
  | missing
  | notInteger
  | unreadableInteger
  | oversizedInteger
  | fractional
  | notFinite
  | below (bound : Int)
  | notBoolean
  | unreadableBoolean
  | notText
  | notList
  | notRecord (name : String)
  | notAmong (options : List String)
  | endsBeforeStart (stop start : Int)
  | symbolOutside (name : Text) (symbolStart symbolStop start stop : Int)
  | unknownField (name : String)
  | reserved (fault : RecordFault)
deriving Repr, DecidableEq

namespace Cause

def code : Cause → String
  | missing => "missing"
  | notInteger => "int_type"
  | unreadableInteger => "int_parsing"
  | oversizedInteger => "int_parsing_size"
  | fractional => "int_from_float"
  | notFinite => "finite_number"
  | below _ => "greater_than_equal"
  | notBoolean => "bool_type"
  | unreadableBoolean => "bool_parsing"
  | notText => "string_type"
  | notList => "list_type"
  | notRecord _ => "model_type"
  | notAmong _ => "enum"
  | endsBeforeStart .. => "value_error"
  | symbolOutside .. => "value_error"
  | unknownField _ => "no_such_attribute"
  | reserved _ => "reserved_name"

/-- Quoted options with commas between them and "or" before the last. -/
def alternatives (options : List String) : String :=
  let quoted := options.map Text.quotedString
  match quoted.reverse with
  | [] => ""
  | [only] => only
  | last :: before => ", ".intercalate before.reverse ++ " or " ++ last

def message : Cause → String
  | missing => "Field required"
  | notInteger => "Input should be a valid integer"
  | unreadableInteger => "Input should be a valid integer, unable to parse string as an integer"
  | oversizedInteger => "Unable to parse input string as an integer, exceeded maximum size"
  | fractional => "Input should be a valid integer, got a number with a fractional part"
  | notFinite => "Input should be a finite number"
  | below bound => "Input should be greater than or equal to " ++ toString bound
  | notBoolean => "Input should be a valid boolean"
  | unreadableBoolean => "Input should be a valid boolean, unable to interpret input"
  | notText => "Input should be a valid string"
  | notList => "Input should be a valid list"
  | notRecord name => "Input should be a valid dictionary or instance of " ++ name
  | notAmong options => "Input should be " ++ alternatives options
  | endsBeforeStart stop start =>
    s!"Value error, end_line ({stop}) precedes start_line ({start})"
  | symbolOutside name symbolStart symbolStop start stop =>
    "Value error, Symbol " ++ Text.quoted name ++
      s!" at lines {symbolStart}-{symbolStop} lies outside chunk lines {start}-{stop}"
  | unknownField name => s!"Object has no attribute '{name}'"
  | reserved fault => fault.message

end Cause

structure Issue where
  path : List Step
  cause : Cause
  input : Value

namespace Issue

def under (step : Step) (i : Issue) : Issue := { i with path := step :: i.path }

def stepText : Step → String
  | .key name => name
  | .item index => toString index

/-- The page that explains a kind of issue. -/
def helpPage (c : Cause) : String := "https://errors.pydantic.dev/2.14/v/" ++ c.code

/-- A long value keeps its first 25 and last 24 characters. -/
def abridged (s : String) : String :=
  let cs := s.toList
  if cs.length ≤ 50 then s
  else String.ofList (cs.take 25) ++ "..." ++ String.ofList (cs.drop (cs.length - 24))

def report (i : Issue) : String :=
  (if i.path.isEmpty then "" else "\n" ++ ".".intercalate (i.path.map stepText)) ++
    "\n  " ++ i.cause.message ++ " [type=" ++ i.cause.code ++ ", input_value=" ++
    abridged i.input.literal ++ ", input_type=" ++ i.input.typeName ++ "]"

/-- The same, followed by a line that names the page on this kind of issue. -/
def fullReport (i : Issue) : String :=
  i.report ++ "\n    For further information visit " ++ helpPage i.cause

def heading (record : String) (issues : List Issue) : String :=
  toString issues.length ++ (if issues.length = 1 then " validation error for " else
    " validation errors for ") ++ record

/-- What a failed reading says about a record as a whole. -/
def reportAll (record : String) (issues : List Issue) : String :=
  heading record issues ++ String.join (issues.map report)

/-- The same with the page on each issue. -/
def fullReportAll (record : String) (issues : List Issue) : String :=
  heading record issues ++ String.join (issues.map fullReport)

end Issue

/-- A value, or all the issues met on the way to it. -/
inductive Checked (α : Type) where
  | ok (value : α)
  | refused (issues : List Issue)

namespace Checked

def map {α β : Type} (f : α → β) : Checked α → Checked β
  | .ok a => .ok (f a)
  | .refused is => .refused is

/-- Both readings are made, so the issues of both are kept. -/
def seq {α β : Type} : Checked (α → β) → Checked α → Checked β
  | .ok f, .ok a => .ok (f a)
  | .ok _, .refused is => .refused is
  | .refused is, .ok _ => .refused is
  | .refused is, .refused js => .refused (is ++ js)

instance : Functor Checked := ⟨map, fun a x => map (fun _ => a) x⟩

instance : Seq Checked := ⟨fun f x => seq f (x ())⟩

/-- A further step that runs only on a value. -/
def andThen {α β : Type} (x : Checked α) (f : α → Checked β) : Checked β :=
  match x with
  | .ok a => f a
  | .refused is => .refused is

def under {α : Type} (step : Step) : Checked α → Checked α
  | .ok a => .ok a
  | .refused is => .refused (is.map (Issue.under step))

def refuse {α : Type} (cause : Cause) (input : Value) : Checked α := .refused [⟨[], cause, input⟩]

def toExcept {α : Type} : Checked α → Except (List Issue) α
  | .ok a => .ok a
  | .refused is => .error is

end Checked

namespace Value

/-- The bound on the size of an integer that fits in a word. -/
def wordBound : Int := 9223372036854775808

/-- Whether a real that is a whole number is taken for an integer. -/
def isWord (i : Int) : Bool := -wordBound < i && i < wordBound

def readInteger : Value → Checked Int
  | .int i => .ok i
  | .bool b => .ok (if b then 1 else 0)
  | .real (.finite b) =>
    match b.toInt? with
    | some i =>
      if isWord i then .ok i else Checked.refuse .oversizedInteger (.real (.finite b))
    | none => Checked.refuse .fractional (.real (.finite b))
  | .real q => Checked.refuse .notFinite (.real q)
  | .text t =>
    match Text.strictInteger t with
    | .ok i => .ok i
    | .error .oversized => Checked.refuse .oversizedInteger (.text t)
    | .error .unreadable => Checked.refuse .unreadableInteger (.text t)
  | v => Checked.refuse .notInteger v

def readAtLeast (bound : Int) (v : Value) : Checked Int :=
  (readInteger v).andThen fun i =>
    if bound ≤ i then .ok i else Checked.refuse (.below bound) v

def trueWords : List String := ["1", "on", "t", "true", "y", "yes"]

def falseWords : List String := ["0", "off", "f", "false", "n", "no"]

/-- One and zero stand for truth values; other numbers that fit in a word are
unreadable as such, and larger ones are no truth values at all. -/
def booleanOf (fits : Bool) (i : Int) (v : Value) : Checked Bool :=
  if i = 1 then .ok true
  else if i = 0 then .ok false
  else Checked.refuse (if fits then .unreadableBoolean else .notBoolean) v

def readBoolean : Value → Checked Bool
  | .bool b => .ok b
  | .int i => booleanOf (i = -wordBound || isWord i) i (.int i)
  | .real (.finite b) =>
    match b.toInt? with
    | some i => booleanOf (isWord i) i (.real (.finite b))
    | none => Checked.refuse .notBoolean (.real (.finite b))
  | .text t =>
    let word := t.map (CodePoint.map Char.toLower)
    if (trueWords.map Text.ofString).contains word then .ok true
    else if (falseWords.map Text.ofString).contains word then .ok false
    else Checked.refuse .unreadableBoolean (.text t)
  | v => Checked.refuse .notBoolean v

def readText : Value → Checked Text
  | .text t => .ok t
  | v => Checked.refuse .notText v

/-- Reads an absent value as nothing. -/
def readOptional {α : Type} (read : Value → Checked α) : Value → Checked (Option α)
  | .null => .ok none
  | v => (read v).map some

def readItems {α : Type} (read : Value → Checked α) : Nat → List Value → Checked (List α)
  | _, [] => .ok []
  | i, v :: rest =>
    (((read v).under (.item i)).map List.cons).seq (readItems read (i + 1) rest)

def readList {α : Type} (read : Value → Checked α) : Value → Checked (List α)
  | .list items => readItems read 0 items
  | v => Checked.refuse .notList v

/-- One of the named options, spelt exactly. -/
def readChoice {α : Type} (options : List (String × α)) (v : Value) : Checked α :=
  let found : Option (String × α) :=
    match v with
    | .text t => options.find? fun o => Text.ofString o.1 == t
    | _ => none
  match found with
  | some o => .ok o.2
  | none => Checked.refuse (.notAmong (options.map Prod.fst)) v

def readRecord {α : Type} (name : String) (read : List (String × Value) → Checked α) :
    Value → Checked α
  | .object fields => read fields
  | v => Checked.refuse (.notRecord name) v

def required {α : Type} (fields : List (String × Value)) (name : String)
    (read : Value → Checked α) : Checked α :=
  match get? name fields with
  | some v => (read v).under (.key name)
  | none => .refused [⟨[.key name], .missing, .object fields⟩]

def defaulted {α : Type} (fields : List (String × Value)) (name : String) (default : α)
    (read : Value → Checked α) : Checked α :=
  match get? name fields with
  | some v => (read v).under (.key name)
  | none => .ok default

def optional {α : Type} (fields : List (String × Value)) (name : String)
    (read : Value → Checked α) : Checked (Option α) :=
  defaulted fields name none (readOptional read)

mutual

/-- Leaves out every field whose value is null, at every depth. -/
def withoutNulls : Value → Value
  | .list items => .list (itemsWithoutNulls items)
  | .object fields => .object (fieldsWithoutNulls fields)
  | v => v

def itemsWithoutNulls : List Value → List Value
  | [] => []
  | v :: rest => withoutNulls v :: itemsWithoutNulls rest

def fieldsWithoutNulls : List (String × Value) → List (String × Value)
  | [] => []
  | (_, .null) :: rest => fieldsWithoutNulls rest
  | (key, v) :: rest => (key, withoutNulls v) :: fieldsWithoutNulls rest

end

def ofOption {α : Type} (f : α → Value) : Option α → Value
  | some a => f a
  | none => .null

end Value
end SourceChunking
