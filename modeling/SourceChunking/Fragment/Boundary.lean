import SourceChunking.Failure
import SourceChunking.Fragment.Basic
import SourceChunking.Grammar
import SourceChunking.Tree.Navigation

/-! # Cutting at boundary nodes

A parsed source is cut at its outermost boundary nodes: the descent from the root
stops at the first node whose kind is a boundary, so nothing is cut twice. Nodes
whose text is blank yield nothing. A source with no such node stays whole.
-/
namespace SourceChunking

inductive ParseOutcome where
  | tree (rows : List Row)
  | failed (reason : String)
  | nothing
  | rootless
deriving Repr, DecidableEq

def unavailable (language reason : String) : Failure :=
  .parseUnavailable (Value.ofString language) (Value.ofString reason)

/-- The tree of a parse, unless there is none or its root is an error node. -/
def ParseOutcome.toTree (language : String) (source : Text) : ParseOutcome → Except Failure Tree
  | .failed reason => .error (unavailable language reason)
  | .nothing => .error (unavailable language "parser returned no tree")
  | .rootless => .error (unavailable language "parser returned no tree")
  | .tree [] => .error (unavailable language "list index out of range")
  | .tree (root :: rest) =>
    if root.kind = "ERROR" then
      .error (unavailable language "root node is an ERROR node")
    else .ok (Tree.ofRows (Text.encode source) (root :: rest))

namespace Tree

def outermostWithin (t : Tree) (kinds : List String) : Nat → Nat → List Nat
  | 0, _ => []
  | depth + 1, i =>
    if kinds.contains (t.kind i) then [i]
    else (t.children i).flatMap (outermostWithin t kinds depth)

/-- The nodes of the given kinds that lie below no other of these kinds. -/
def outermost (t : Tree) (kinds : List String) : List Nat :=
  match t.root? with
  | some r => t.outermostWithin kinds t.size r
  | none => []

def fragment (t : Tree) (i : Nat) : Fragment where
  content := t.text i
  startLine := (t.node i).startLine
  endLine := (t.node i).endLine
  nodeKind := some (t.kind i)
  nodeIndex := some i
  symbols := []

def boundaryFragments (t : Tree) (kinds : List String) : List Fragment :=
  ((t.outermost kinds).filter fun i => !Text.allBlank (t.text i)).map t.fragment

/-- The fragments of a parsed text: one for each boundary, or the whole text. -/
def fragments (t : Tree) (kinds : List String) (source : Text) : List Fragment :=
  match t.boundaryFragments kinds with
  | [] => [{ Fragment.whole source with nodeIndex := t.root?.map fun r => (r : Int) }]
  | fs => fs

end Tree

structure Cut where
  tree : Tree
  fragments : List Fragment

def Grammar.cut (g : Grammar) (outcome : ParseOutcome) (source : Text) :
    Logged (Except Failure Cut) :=
  match outcome.toTree g.name source with
  | .error e => pure (.error e)
  | .ok t => do
    let fs := t.fragments g.boundaryKinds source
    Logged.debug "codechunker.parsers.splitter"
      s!"Split {g.name} source into {fs.length} raw chunks"
      [("language", Value.ofString g.name), ("chunks", .int fs.length)]
    pure (.ok ⟨t, fs⟩)

end SourceChunking
