import SourceChunking.Symbol.Data

/-! # Chunks

A chunk is a piece of source text with the lines it stands for and the symbols
defined on them. `Chunk.Valid` is what a chunk has to satisfy when it is handed
out: its lines are counted from one and in order, and every symbol lies on them.
-/
namespace SourceChunking

structure Chunk where
  content : Text
  startLine : Int
  endLine : Int
  language : Text
  filePath : Option Text
  nodeKind : Option Text
  symbols : List Symbol
deriving Repr, DecidableEq

namespace Chunk

/-- Whether a range lies on the lines from `start` to `stop`. -/
def within (start stop : Int) (r : SymbolRange) : Bool := start ≤ r.startLine && r.endLine ≤ stop

def containsRange (c : Chunk) (r : SymbolRange) : Bool := within c.startLine c.endLine r

def Valid (c : Chunk) : Prop :=
  1 ≤ c.startLine ∧ c.startLine ≤ c.endLine ∧ ∀ s ∈ c.symbols, c.containsRange s.range

def hasSymbols (c : Chunk) : Bool := !c.symbols.isEmpty

def lineSpan (c : Chunk) : Int := c.endLine - c.startLine + 1

def symbol? (c : Chunk) (name : Text) : Option Symbol := c.symbols.find? fun s => s.name == name

def toValue (c : Chunk) : Value :=
  .object
    [("content", .text c.content), ("start_line", .int c.startLine), ("end_line", .int c.endLine),
      ("language", .text c.language), ("file_path", Value.ofOption .text c.filePath),
      ("node_kind", Value.ofOption .text c.nodeKind),
      ("symbols", .list (c.symbols.map Symbol.toValue))]

/-- The checks of a whole chunk: the order of its lines first, then its symbols in
order. -/
def consistent (input : Value) (c : Chunk) : Checked Chunk :=
  if c.endLine < c.startLine then
    Checked.refuse (.endsBeforeStart c.endLine c.startLine) input
  else
    match c.symbols.find? fun s => !c.containsRange s.range with
    | some s =>
      Checked.refuse
        (.symbolOutside s.name s.range.startLine s.range.endLine c.startLine c.endLine) input
    | none => .ok c

def read : Value → Checked Chunk :=
  Value.readRecord "CodeChunk" fun fields =>
    (Chunk.mk <$> Value.required fields "content" Value.readText
      <*> Value.required fields "start_line" (Value.readAtLeast 1)
      <*> Value.required fields "end_line" (Value.readAtLeast 1)
      <*> Value.required fields "language" Value.readText
      <*> Value.optional fields "file_path" Value.readText
      <*> Value.optional fields "node_kind" Value.readText
      <*> Value.defaulted fields "symbols" [] (Value.readList Symbol.read)).andThen
        (consistent (.object fields))

/-- The issues of one line number. -/
def lineIssues (name : String) (line : Int) : List Issue :=
  if 1 ≤ line then [] else [⟨[.key name], .below 1, .int line⟩]

/-- Lets a chunk that was put together from its parts pass if it is valid. -/
def checked (c : Chunk) : Checked Chunk :=
  match lineIssues "start_line" c.startLine ++ lineIssues "end_line" c.endLine with
  | [] => consistent c.toValue c
  | issues => .refused issues

/-- The chunk as the data of a printed document. -/
def compactValue (c : Chunk) : Value := c.toValue.withoutNulls

end Chunk
end SourceChunking
