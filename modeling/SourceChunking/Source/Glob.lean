import SourceChunking.Source.Store

/-! # Patterns for file names

A pattern is a list of components. Within a component a star stands for any run of
characters, a question mark for one, and brackets for one of a set; a component
without any of these names one entry, and may lead upwards. A component of two
stars stands for any number of directories. A pattern may match at any depth, and
one that ends with a slash matches no file.
-/
namespace SourceChunking

inductive GlobItem where
  | char (c : CodePoint)
  | any
  | run
  | set (negated : Bool) (ranges : List (CodePoint × CodePoint))
deriving Repr, DecidableEq

namespace GlobItem

def inRange (c : CodePoint) (r : CodePoint × CodePoint) : Bool :=
  r.1.toNat ≤ c.toNat && c.toNat ≤ r.2.toNat

/-- What stands between an opening bracket and the next closing one, and what
follows; a closing bracket at the front belongs to the set. -/
def bracket? (t : Text) : Option (Text × Text) :=
  let opening := match t with
    | .scalar '!' :: .scalar ']' :: _ => 2
    | .scalar '!' :: _ => 1
    | .scalar ']' :: _ => 1
    | _ => 0
  let body := t.take opening ++ (t.drop opening).takeWhile (· != .scalar ']')
  match t.drop body.length with
  | .scalar ']' :: rest => some (body, rest)
  | _ => none

/-- Cuts a set where a hyphen spans a range. Such a hyphen stands behind so many
characters at least, two after the first one, and before another character; any
other hyphen is a member of the set. -/
def chunksFrom : Nat → Text → List Text
  | _, [] => []
  | 0, .scalar '-' :: c :: rest => [] :: chunksFrom 2 (c :: rest)
  | before, c :: rest =>
    match chunksFrom (before - 1) rest with
    | [] => [[c]]
    | chunk :: more => (c :: chunk) :: more

/-- Puts a chunk in front of others. If its range to the next one ends before it
starts, the range goes and the two chunks become one. -/
def joinChunk (chunk : Text) : List Text → List Text
  | [] => [chunk]
  | next :: more =>
    match chunk.getLast?, next.head? with
    | some low, some high =>
      if high.toNat < low.toNat then (chunk.dropLast ++ next.tail) :: more else chunk :: next :: more
    | _, _ => chunk :: next :: more

def rangesBetween : List Text → List (CodePoint × CodePoint)
  | chunk :: next :: more =>
    (match chunk.getLast?, next.head? with
      | some low, some high => [(low, high)]
      | _, _ => []) ++ rangesBetween (next :: more)
  | _ => []

def members (chunks : List Text) : List (CodePoint × CodePoint) :=
  chunks.flatten.map (fun c => (c, c)) ++ rangesBetween chunks

/-- An exclamation mark negates a set if it comes first once the empty ranges are
gone. A hyphen right behind it, which has nothing to start from, is a member. -/
def setOf (body : Text) : GlobItem :=
  let before := if body.head? == some (.scalar '!') then 2 else 1
  match (chunksFrom before body).foldr joinChunk [] with
  | [.scalar '!'] :: next :: more => .set true (('-', '-') :: members (next :: more))
  | (.scalar '!' :: chunk) :: more => .set true (members (chunk :: more))
  | chunks => .set false (members chunks)

/-- Reads the items of a component; each step uses up a character at least. -/
def readWithin : Nat → Text → List GlobItem
  | 0, _ => []
  | _ + 1, [] => []
  | steps + 1, .scalar '*' :: rest => .run :: readWithin steps rest
  | steps + 1, .scalar '?' :: rest => .any :: readWithin steps rest
  | steps + 1, .scalar '[' :: rest =>
    match bracket? rest with
    | some (body, after) => setOf body :: readWithin steps after
    | none => .char '[' :: readWithin steps rest
  | steps + 1, c :: rest => .char c :: readWithin steps rest

def read (t : Text) : List GlobItem := readWithin t.length t

def accepts : GlobItem → CodePoint → Bool
  | .char c, d => c == d
  | .any, _ => true
  | .run, _ => true
  | .set negated ranges, d => (ranges.any (inRange d)) != negated

def someFurther : List Bool → List Bool
  | [] => []
  | b :: rest =>
    let later := someFurther rest
    (b || later.headD false) :: later

/-- For each end of a text, the whole text first, whether items match it. -/
def matchEnds : List GlobItem → Text → List Bool
  | [], t => List.replicate t.length false ++ [true]
  | .run :: rest, t => someFurther (matchEnds rest t)
  | item :: rest, t =>
    List.zipWith (fun c matched => item.accepts c && matched) t (matchEnds rest t).tail ++ [false]

def matchAll (items : List GlobItem) (t : Text) : Bool := (matchEnds items t).headD false

end GlobItem

inductive GlobPart where
  | directories
  | names (items : List GlobItem)
  | only (name : String)
deriving Repr, DecidableEq

inductive GlobError where
  | rooted
  | starsInName
deriving Repr, DecidableEq

def GlobError.message : GlobError → String
  | .rooted => "Non-relative patterns are unsupported"
  | .starsInName => "Invalid pattern: '**' can only be an entire path component"

structure Glob where
  parts : List GlobPart
  forFiles : Bool
deriving Repr, DecidableEq

namespace Glob

def hasWildcard (t : Text) : Bool := t.any fun c => c == '*' || c == '?' || c == '['

def readPart (component : String) : Except GlobError GlobPart :=
  let t := Text.ofString component
  if component = "**" then .ok .directories
  else if (Text.offset? ['*', '*'] t).isSome then .error .starsInName
  else if hasWildcard t then .ok (.names (GlobItem.read t))
  else .ok (.only component)

def readParts : List String → Except GlobError (List GlobPart)
  | [] => .ok []
  | c :: rest => do
    let part ← readPart c
    let parts ← readParts rest
    pure (part :: parts)

def read (pattern : String) : Except GlobError Glob := do
  if pattern.startsWith "/" then .error .rooted
  let parts ← readParts (Path.ofString pattern).components
  pure ⟨.directories :: parts, !pattern.endsWith "/"⟩

def everything : Glob := ⟨[.directories, .names [.run]], true⟩

/-- The entries that one part leads to from an entry, each as a path and its place.
All but the last part lead to directories. Looking for one name fails if no name or
path can be that long. -/
def follow (s : Store) (isLast : Bool) (path : Path) (place : List String) :
    GlobPart → Except FileError (List (Path × List String))
  | .directories =>
    .ok ((s.directoriesBelow place).map fun below => (path.under below, place ++ below))
  | .names items =>
    let names := (s.children place).filter fun name =>
      GlobItem.matchAll items (Text.ofString name) && (isLast || s.isDirectory (place ++ [name]))
    .ok (names.map fun name => (path.under [name], place ++ [name]))
  | .only name =>
    match s.reach path place name with
    | .error .nameTooLong => .error (.absent .nameTooLong (path.under [name]).toString)
    | .error _ => .ok []
    | .ok next =>
      .ok (if isLast || s.isDirectory next then [(path.under [name], next)] else [])

/-- The entries that parts lead to from any of the given ones. An entry that can be
reached in several ways is followed once. -/
def select (s : Store) : List GlobPart → List (Path × List String) →
    Except FileError (List (Path × List String))
  | [], found => .ok found
  | part :: rest, found => do
    let next ← found.mapM fun entry => follow s rest.isEmpty entry.1 entry.2 part
    select s rest next.flatten.eraseDups

def files (s : Store) (path : Path) (place : List String) (g : Glob) :
    Except FileError (List Path) := do
  let found ← select s g.parts [(path, place)]
  pure (if g.forFiles then (found.filter fun f => s.isFile f.2).map Prod.fst else [])

end Glob
end SourceChunking
