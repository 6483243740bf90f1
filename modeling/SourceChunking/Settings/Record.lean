import SourceChunking.Settings.Basic

/-! # Settings as records

A record holds settings, and it takes values under other names too. A name with an
underscore in front is no field: anything may be put there. A few of these names
are the record's own. Under one of them stand all entries at once, and these may be
replaced as a whole without being checked; what is shown afterwards are the entries
that belong to fields. Other values under such names do no harm until the record
needs what they stand for.

The settings in a record are those that were checked, whatever its entries are.
-/
namespace SourceChunking

/-! The names under which a record keeps what is its own. -/
namespace OwnName

def entries : String := "__dict__"

def given : String := "__pydantic_fields_set__"

def beside : String := "__pydantic_extra__"

def hidden : String := "__pydantic_private__"

def checker : String := "__pydantic_validator__"

def writer : String := "__pydantic_serializer__"

def handlers : String := "__pydantic_setattr_handlers__"

def finder : String := "_setattr_handler"

end OwnName

structure SettingsRecord where
  settings : Settings
  /-- All entries of the record, once there are others than those of its settings. -/
  entries : Option (List (String × Value))
  /-- What is kept beside the fields; the next change of a field takes it in. -/
  beside : Value
  /-- What stands in the place of the set of fields that were given. -/
  given : Option Value

namespace SettingsRecord

def ofSettings (s : Settings) : SettingsRecord := ⟨s, none, .null, none⟩

/-- Gives a name a value, in its old place if it had one. -/
def put (name : String) (v : Value) : List (String × Value) → List (String × Value)
  | [] => [(name, v)]
  | (key, w) :: rest => if key = name then (key, v) :: rest else (key, w) :: put name v rest

def putAll (new old : List (String × Value)) : List (String × Value) :=
  new.foldl (fun entries e => put e.1 e.2 entries) old

def allEntries (r : SettingsRecord) : List (String × Value) := r.entries.getD r.settings.fields

/-- The fields of a record as they stand in it, checked or not. -/
def toValue (r : SettingsRecord) : Value :=
  .object (r.allEntries.filter fun e => Settings.fieldNames.contains e.1)

def isPrivate (name : String) : Bool := name.toList.head? == some '_'

/-- What was put in the place of something of the record's own. -/
def override? (r : SettingsRecord) (name : String) : Option Value :=
  r.entries.bind (Value.get? name)

/-- The fields as the record's own writer gives them. -/
def written (r : SettingsRecord) : Except RecordFault Value :=
  match r.override? OwnName.writer with
  | some v => .error (.noAttribute v.typeName "to_python")
  | none => .ok r.toValue

/-- Every name has a handler. Those of fields are known and the others have to be
found, and so do all of them once other handlers stand in their place. -/
def handlerFault? (r : SettingsRecord) (name : String) : Option RecordFault :=
  let unfindable : Option RecordFault :=
    (r.override? OwnName.finder).map fun v => .notCallable v.typeName
  match r.override? OwnName.handlers with
  | none => if Settings.fieldNames.contains name then none else unfindable
  | some (.object handlers) =>
    match Value.get? name handlers with
    | none => unfindable
    | some .null => unfindable
    | some handler => some (.notCallable handler.typeName)
  | some v => some (.noAttribute v.typeName "get")

/-- What keeps a value out of a name that records have for their own use. -/
def reservedFault? (name : String) (v : Value) : Option RecordFault :=
  if name = "model_extra" ∨ name = "model_fields_set" ∨ name = "__fields_set__" then
    some (.noSetter name Settings.recordName)
  else if name = "__weakref__" then some (.notWritable name Settings.recordName)
  else if name = "__class__" then some (.notClass v.typeName)
  else if name = OwnName.entries then
    match v with
    | .object _ => none
    | v => some (.notDictionary v.typeName)
  else none

/-- What keeps a record from checking the value of a field. -/
def checkFault? (r : SettingsRecord) : Option RecordFault :=
  match r.override? OwnName.checker, r.beside with
  | some v, _ => some (.noAttribute v.typeName "validate_assignment")
  | none, .null => none
  | none, .object _ => none
  | none, v => some (.notInstance v.typeName "dict")

/-- Puts a value under a name that is no field. -/
def attach (r : SettingsRecord) (name : String) (v : Value) : SettingsRecord :=
  if name = OwnName.entries then
    match v with
    | .object entries => { r with entries := some entries }
    | _ => r
  else if name = OwnName.given then { r with given := some v }
  else if name = OwnName.beside then { r with beside := v }
  else if name = OwnName.hidden then r
  else { r with entries := some (put name v r.allEntries) }

/-- The record with one field changed to what the settings now have there. -/
def withField (r : SettingsRecord) (name : String) (s : Settings) : SettingsRecord :=
  let changed := s.fields.filter fun e => e.1 == name
  match r.beside with
  | .object taken => ⟨s, some (putAll changed (putAll taken r.allEntries)), .null, r.given⟩
  | _ => ⟨s, r.entries.map (putAll changed), .null, r.given⟩

/-- Changes one field, or puts a value under another name. -/
def assign (r : SettingsRecord) (name : String) (v : Value) : Checked SettingsRecord :=
  let refuse (fault : RecordFault) : Checked SettingsRecord :=
    (Checked.refuse (.reserved fault) v).under (.key name)
  match r.handlerFault? name, reservedFault? name v with
  | some fault, _ => refuse fault
  | none, some fault => refuse fault
  | none, none =>
    if isPrivate name then .ok (r.attach name v)
    else match r.checkFault? with
      | some fault => refuse fault
      | none =>
        (r.settings.assign name v).andThen fun s =>
          match r.given with
          | some w => refuse (.notInstance w.typeName "set")
          | none => .ok (r.withField name s)

end SettingsRecord
end SourceChunking
