import SourceChunking.Text.Basic

/-! # Paths

A path is a list of components; empty ones and single dots are dropped when it is
read, double dots stay. A leading slash makes it rooted, and exactly two of them
are kept apart from one.
-/
namespace SourceChunking

structure Path where
  root : String
  components : List String
deriving Repr, DecidableEq

namespace Path

/-- The slashes that a rooted path starts with. -/
def rootOf (s : String) : String :=
  match (s.toList.takeWhile (· == '/')).length with
  | 0 => ""
  | 2 => "//"
  | _ => "/"

def rawComponents (s : String) : List String := (s.toList.splitOn '/').map String.ofList

def ofString (s : String) : Path where
  root := rootOf s
  components := (rawComponents s).filter fun c => c != "" && c != "."

def toString (p : Path) : String :=
  if p.root.isEmpty && p.components.isEmpty then "."
  else p.root ++ "/".intercalate p.components

/-- The last component, if there is one. -/
def name (p : Path) : String := p.components.getLast?.getD ""

/-- The last dot of a name and what follows it, unless the dot is the first or the
last character. -/
def suffixOf (name : Text) : Text :=
  match Text.afterLast? ['.'] name with
  | some extension =>
    if extension.isEmpty || extension.length + 1 = name.length then [] else '.' :: extension
  | none => []

def suffix (p : Path) : Text := suffixOf (Text.ofString p.name)

/-- Appends components. -/
def under (p : Path) (components : List String) : Path :=
  { p with components := p.components ++ components }

end Path
end SourceChunking
