import SourceChunking.Span
import SourceChunking.Text.Utf8

/-! # Syntax trees

A tree is stored flat: an array of nodes in pre-order, each naming its parent by
index, over the bytes of the source. Byte offsets and points are signed and taken
as they are given, so a tree may be nonsensical; whatever has to hold of a
sensible one is a hypothesis where it is needed.
-/
namespace SourceChunking

/-- Zero-based row and byte column. -/
structure Point where
  row : Int
  column : Int
deriving Repr, DecidableEq

structure Node where
  kind : String
  field : Option String
  named : Bool
  startByte : Int
  endByte : Int
  start : Point
  stop : Point
  parent : Option Nat
deriving Repr, DecidableEq

namespace Node

/-- Stands for an index that no node has. -/
def absent : Node := ⟨"", none, false, 0, 0, ⟨0, 0⟩, ⟨0, 0⟩, none⟩

def startLine (n : Node) : Int := n.start.row + 1

/-- The last line that holds text of the node. A node that takes in its final
newline stops at column 0 of the row below, which then does not count. -/
def endLine (n : Node) : Int :=
  if n.stop.column = 0 ∧ n.start.row < n.stop.row then n.stop.row else n.stop.row + 1

def startColumn (n : Node) : Int := n.start.column

def endColumn (n : Node) : Int := n.stop.column

end Node

/-- A node as a parser reports it. Points are derived from the byte offsets when
they are left out. -/
structure Row where
  parent : Option Nat
  kind : String
  field : Option String
  named : Bool
  startByte : Int
  endByte : Int
  points : Option (Point × Point)
deriving Repr, DecidableEq

def newlineByte : UInt8 := 10

/-- The point so many bytes after another one. Each newline starts a row, and behind
the last byte only columns are counted. -/
def pointAfter (row column : Nat) : Nat → List UInt8 → Point
  | 0, _ => ⟨row, column⟩
  | n + 1, [] => ⟨row, column + (n + 1 : Nat)⟩
  | n + 1, b :: rest =>
    if b = newlineByte then pointAfter (row + 1) 0 n rest else pointAfter row (column + 1) n rest

/-- Row and column of a byte offset. An offset before the source is a column of its
first row. -/
def pointAt (source : List UInt8) (offset : Int) : Point :=
  if offset < 0 then ⟨0, offset⟩ else pointAfter 0 0 offset.toNat source

structure Tree where
  source : List UInt8
  nodes : Array Node

def Row.toNode (source : List UInt8) (r : Row) : Node where
  kind := r.kind
  field := r.field
  named := r.named
  startByte := r.startByte
  endByte := r.endByte
  start := (r.points.map Prod.fst).getD (pointAt source r.startByte)
  stop := (r.points.map Prod.snd).getD (pointAt source r.endByte)
  parent := r.parent

/-- The first row is the root, which is in no field. -/
def Tree.ofRows (source : List UInt8) : List Row → Tree
  | [] => ⟨source, #[]⟩
  | root :: rest =>
    ⟨source, ({ root with field := none } :: rest).map (Row.toNode source) |>.toArray⟩

end SourceChunking
