import SourceChunking.Tree.Basic

/-! # Moving about in a tree

Nodes are named by their index. The children of a node are the nodes that name it
as parent, in index order, so the downward view is determined by the upward one.
Walks are bounded by the number of nodes, which bounds the depth of every tree
whose nodes come after their parents.
-/
namespace SourceChunking.Tree

def size (t : Tree) : Nat := t.nodes.size

def node (t : Tree) (i : Nat) : Node := t.nodes.getD i Node.absent

def kind (t : Tree) (i : Nat) : String := (t.node i).kind

def root? (t : Tree) : Option Nat := if t.size = 0 then none else some 0

def parent? (t : Tree) (i : Nat) : Option Nat := (t.node i).parent

def children (t : Tree) (i : Nat) : List Nat :=
  (List.range t.size).filter fun j => t.parent? j == some i

def namedChildren (t : Tree) (i : Nat) : List Nat :=
  (t.children i).filter fun j => (t.node j).named

def ancestorsWithin (t : Tree) : Nat → Nat → List Nat
  | 0, _ => []
  | steps + 1, i =>
    match t.parent? i with
    | none => []
    | some p => p :: ancestorsWithin t steps p

/-- Parent, grandparent and so on up to the root. -/
def ancestors (t : Tree) (i : Nat) : List Nat := t.ancestorsWithin t.size i

def childByField (t : Tree) (i : Nat) (field : String) : Option Nat :=
  (t.children i).find? fun j => (t.node j).field == some field

def firstChildOfKind (t : Tree) (i : Nat) (kinds : List String) : Option Nat :=
  (t.children i).find? fun j => kinds.contains (t.kind j)

/-- A child of one of the kinds, or else a grandchild. -/
def findChild (t : Tree) (i : Nat) (kinds : List String) : Option Nat :=
  (t.firstChildOfKind i kinds).or
    ((t.children i).findSome? fun j => t.firstChildOfKind j kinds)

def walkWithin (t : Tree) : Nat → Nat → List Nat
  | 0, _ => []
  | depth + 1, i => i :: (t.children i).flatMap (walkWithin t depth)

/-- The subtree of a node in pre-order. -/
def walk (t : Tree) (i : Nat) : List Nat := t.walkWithin t.size i

def slice (t : Tree) (a b : Int) : Text := Text.decode (span t.source a b)

def text (t : Tree) (i : Nat) : Text := t.slice (t.node i).startByte (t.node i).endByte

def lines (t : Tree) : List Text := Text.lines (Text.decode t.source)

/-- The node at a signed index. -/
def locate? (t : Tree) (i : Int) : Option Nat := signedIndex? t.size i

end SourceChunking.Tree
