import SourceChunking.Binary
import SourceChunking.Text.Quoted

/-! # Data values

Settings, symbols and chunks are read from and written to plain data: the values
that a JSON document can hold. Objects keep the order of their fields. A value is
shown in a log line by `shown`, inside another value by `literal`, and as an
indented ASCII document by `document`.
-/
namespace SourceChunking

inductive Value where
  | null
  | bool (b : Bool)
  | int (i : Int)
  | real (q : Quantity)
  | text (t : Text)
  | list (items : List Value)
  | object (fields : List (String × Value))

instance : Inhabited Value := ⟨.null⟩

namespace Value

/-- The first field with the given name. -/
def get? (name : String) : List (String × Value) → Option Value
  | [] => none
  | (key, v) :: rest => if key = name then some v else get? name rest

def ofString (s : String) : Value := .text (Text.ofString s)

mutual

def literal : Value → String
  | .null => "None"
  | .bool b => if b then "True" else "False"
  | .int i => toString i
  | .real q => q.shown
  | .text t => Text.quoted t
  | .list items => "[" ++ ", ".intercalate (literals items) ++ "]"
  | .object fields => "\x7b" ++ ", ".intercalate (fieldLiterals fields) ++ "\x7d"

def literals : List Value → List String
  | [] => []
  | v :: rest => literal v :: literals rest

def fieldLiterals : List (String × Value) → List String
  | [] => []
  | (key, v) :: rest => (Text.quotedString key ++ ": " ++ literal v) :: fieldLiterals rest

end

/-- A text stands for itself; everything else is shown as inside a value. -/
def shown : Value → String
  | .text t => Text.shown t
  | v => v.literal

/-- Whether a value counts as something: not null, false, zero or empty. -/
def isSomething : Value → Bool
  | .null => false
  | .bool b => b
  | .int i => i != 0
  | .real q => !q.isZero
  | .text t => !t.isEmpty
  | .list items => !items.isEmpty
  | .object fields => !fields.isEmpty

/-- The name of the kind of value, as reports give it. -/
def typeName : Value → String
  | .null => "NoneType"
  | .bool _ => "bool"
  | .int _ => "int"
  | .real _ => "float"
  | .text _ => "str"
  | .list _ => "list"
  | .object _ => "dict"

def documentChar (c : Char) : List Char :=
  if c == '"' || c == '\\' then ['\\', c]
  else if c == '\n' then ['\\', 'n']
  else if c == '\r' then ['\\', 'r']
  else if c == '\t' then ['\\', 't']
  else if c.toNat == 8 then ['\\', 'b']
  else if c.toNat == 12 then ['\\', 'f']
  else if 32 ≤ c.toNat && c.toNat < 127 then [c]
  else if c.toNat < 0x10000 then Text.unitEscape c.toNat
  else
    Text.unitEscape (0xd800 + (c.toNat - 0x10000) / 0x400) ++
      Text.unitEscape (0xdc00 + (c.toNat - 0x10000) % 0x400)

def documentPoint : CodePoint → List Char
  | .scalar c => documentChar c
  | .surrogate n => Text.unitEscape (CodePoint.surrogate n).toNat

def documentText (t : Text) : String :=
  String.ofList ('"' :: t.flatMap documentPoint ++ ['"'])

def indentation (depth : Nat) : String := String.ofList (List.replicate (2 * depth) ' ')

/-- Items on lines of their own between brackets; nothing between the brackets of
an empty collection. -/
def bracketed (opening closing : String) (depth : Nat) (items : List String) : String :=
  if items.isEmpty then opening ++ closing
  else
    opening ++ "\n" ++ (",\n").intercalate (items.map (indentation (depth + 1) ++ ·)) ++ "\n" ++
      indentation depth ++ closing

mutual

def documentAt (depth : Nat) : Value → String
  | .null => "null"
  | .bool b => if b then "true" else "false"
  | .int i => toString i
  | .real q => q.documented
  | .text t => documentText t
  | .list items => bracketed "[" "]" depth (documentItems (depth + 1) items)
  | .object fields => bracketed "\x7b" "\x7d" depth (documentFields (depth + 1) fields)

def documentItems (depth : Nat) : List Value → List String
  | [] => []
  | v :: rest => documentAt depth v :: documentItems depth rest

def documentFields (depth : Nat) : List (String × Value) → List String
  | [] => []
  | (key, v) :: rest =>
    (documentText (Text.ofString key) ++ ": " ++ documentAt depth v) :: documentFields depth rest

end

/-- The indented ASCII document of a value. -/
def document (v : Value) : String := documentAt 0 v

end Value
end SourceChunking
