import SourceChunking.Source.Path
import SourceChunking.Text.Quoted
import SourceChunking.Text.Utf8

/-! # Files

A store holds files and directories by their place as seen from one working
directory. The directories on the way to an entry exist with it, and so do those
above the working directory, of which nothing else is known. Reading fails with the
number and wording of the system's errors.
-/
namespace SourceChunking

inductive Entry where
  | file (bytes : List UInt8)
  | directory
deriving Repr, DecidableEq

inductive Absence where
  | missing
  | notDirectory
  | nameTooLong
  | nullCharacter
deriving Repr, DecidableEq

inductive FileError where
  | absent (why : Absence) (path : String)
  | isDirectory (path : String)
  | refused (text : String)
deriving Repr, DecidableEq

def FileError.message : FileError → String
  | .absent .missing path => "[Errno 2] No such file or directory: " ++ Text.quotedString path
  | .absent .notDirectory path => "[Errno 20] Not a directory: " ++ Text.quotedString path
  | .absent .nameTooLong path => "[Errno 36] File name too long: " ++ Text.quotedString path
  | .absent .nullCharacter _ => "embedded null byte"
  | .isDirectory path => "[Errno 21] Is a directory: " ++ Text.quotedString path
  | .refused text => text

/-- Entries by their components, and the paths whose reading is refused, each with
the reason. -/
structure Store where
  entries : List (List String × Entry)
  refusals : List (String × String)
deriving Repr, DecidableEq

namespace Store

def empty : Store := ⟨[], []⟩

/-- Whether a place is the working directory, one above it, or the root. -/
def isAtOrAbove (place : List String) : Bool :=
  place.all (· == "..") || place == ["/"]

def entry? (s : Store) (place : List String) : Option Entry :=
  match s.entries.find? fun e => e.1 == place with
  | some e => some e.2
  | none =>
    if isAtOrAbove place || s.entries.any fun e => place.isPrefixOf e.1 then some .directory
    else none

def isFile (s : Store) (place : List String) : Bool :=
  match s.entry? place with
  | some (.file _) => true
  | _ => false

def isDirectory (s : Store) (place : List String) : Bool := s.entry? place == some .directory

/-- One component up from a place. What lies above the working directory has places
of its own, and the root is its own parent. -/
def above (place : List String) : List String :=
  match place.getLast? with
  | none => [".."]
  | some ".." => place ++ [".."]
  | some "/" => place
  | some _ => place.dropLast

def nameLimit : Nat := 255
def pathLimit : Nat := 4095

def byteCount (s : String) : Nat := (Text.encode (Text.ofString s)).length

def next (place : List String) (component : String) : List String :=
  if component = "" ∨ component = "." then place
  else if component = ".." then above place
  else place ++ [component]

def step (s : Store) (place : List String) (component : String) :
    Except Absence (List String) :=
  match s.entry? place with
  | none => .error .missing
  | some (.file _) => .error .notDirectory
  | some .directory =>
    if nameLimit < byteCount component then .error .nameTooLong
    else if (s.entry? (next place component)).isSome then .ok (next place component)
    else .error .missing

/-- One step from a place that a path led to. -/
def reach (s : Store) (path : Path) (place : List String) (component : String) :
    Except Absence (List String) :=
  if pathLimit < byteCount (path.under [component]).toString then .error .nameTooLong
  else s.step place component

def follow (s : Store) (place : List String) : List String → Except Absence (List String)
  | [] => .ok place
  | c :: rest =>
    match s.step place c with
    | .error why => .error why
    | .ok place => follow s place rest

def locate (s : Store) (path : String) : Except Absence (List String) :=
  if path.toList.contains (Char.ofNat 0) then .error .nullCharacter
  else if path.isEmpty then .error .missing
  else if pathLimit < byteCount path then .error .nameTooLong
  else if path.startsWith "/" then s.follow [] ("/" :: Path.rawComponents path)
  else s.follow [] (Path.rawComponents path)

def read (s : Store) (path : String) : Except FileError (List UInt8) :=
  match s.refusals.lookup path with
  | some text => .error (.refused text)
  | none =>
    match s.locate path with
    | .error why => .error (.absent why path)
    | .ok place =>
      match s.entry? place with
      | some (.file bytes) => .ok bytes
      | some .directory => .error (.isDirectory path)
      | none => .error (.absent .missing path)

def children (s : Store) (place : List String) : List String :=
  (s.entries.filterMap fun e =>
    if place.isPrefixOf e.1 then (e.1.drop place.length).head? else none).eraseDups

/-- The lists that a list starts with, from the empty one to itself. -/
def beginnings : List String → List (List String)
  | [] => [[]]
  | c :: rest => [] :: (beginnings rest).map (c :: ·)

/-- The directories at and below a place, by the components that lead to them from
there. -/
def directoriesBelow (s : Store) (place : List String) : List (List String) :=
  ([] :: s.entries.flatMap fun e =>
    if place.isPrefixOf e.1 then
      (beginnings (e.1.drop place.length)).filter fun p => s.isDirectory (place ++ p)
    else []).eraseDups

end Store
end SourceChunking
