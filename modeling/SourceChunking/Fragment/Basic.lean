import SourceChunking.Symbol.Basic

/-! # Fragments

A fragment is a part of a source before refinement. It remembers the tree node it
was cut from; a fragment that fills a gap between nodes has none. Lines are kept
as the tree gives them, and the index of a node is a label that nothing here reads.
-/
namespace SourceChunking

structure Fragment where
  content : Text
  startLine : Int
  endLine : Int
  nodeKind : Option String
  nodeIndex : Option Int
  symbols : List Symbol
deriving Repr, DecidableEq

namespace Fragment

def plain (content : Text) (startLine endLine : Int) : Fragment :=
  ⟨content, startLine, endLine, none, none, []⟩

def whole (t : Text) : Fragment := plain t 1 (Text.countLines t)

def precedes (a b : Fragment) : Bool :=
  a.startLine < b.startLine || (a.startLine == b.startLine && a.endLine ≤ b.endLine)

def insertSorted (f : Fragment) : List Fragment → List Fragment
  | [] => [f]
  | g :: rest => if precedes f g then f :: g :: rest else g :: insertSorted f rest

/-- Fragments by their lines; those on the same lines keep their order. -/
def sortByLines (fs : List Fragment) : List Fragment := fs.foldr insertSorted []

end Fragment
end SourceChunking
