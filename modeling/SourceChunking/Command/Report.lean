import SourceChunking.Chunk.Basic
import SourceChunking.Grammar

/-! # What commands print

Commands print lines and tables for people, and a document for programs. A table is
its headings and its rows; how it is drawn is left to the terminal.
-/
namespace SourceChunking

structure Table where
  columns : List String
  rows : List (List String)
deriving Repr, DecidableEq

namespace Table

/-- The width of each column. -/
def widths (t : Table) : List Nat :=
  (t.columns :: t.rows).foldl (fun ws row =>
    (row.zipIdx).map fun (cell, i) => max (ws.getD i 0) cell.length) []

def padded (width : Nat) (cell : String) : String :=
  cell ++ String.ofList (List.replicate (width - cell.length) ' ')

/-- The headings and rows with their cells in columns. -/
def lines (t : Table) : List String :=
  (t.columns :: t.rows).map fun row =>
    "  ".intercalate ((row.zip t.widths).map fun (cell, width) => padded width cell)

end Table

inductive Printed where
  | line (s : String)
  | table (t : Table)
deriving Repr, DecidableEq

namespace Report

/-- A text, or a mark in its place when there is none. -/
def orMark (s mark : String) : String := if s.isEmpty then mark else s

def symbolLabel (s : Symbol) : String := s.kind.name ++ " " ++ Text.shown s.qualifiedName

def chunkRow (number : Nat) (c : Chunk) : List String :=
  [toString number, s!"{c.startLine}-{c.endLine}",
    orMark ((c.nodeKind.map Text.shown).getD "") "[dim]text[/dim]", toString c.content.length,
    orMark (", ".intercalate (c.symbols.map symbolLabel)) "[dim]-[/dim]"]

def chunkTable (cs : List Chunk) : Table where
  columns := ["#", "Lines", "Kind", "Chars", "Symbols"]
  rows := cs.zipIdx.map fun (c, i) => chunkRow (i + 1) c

def chunkHeading (path language : String) (count : Nat) : String :=
  "\n[bold]" ++ path ++ "[/bold] (" ++ orMark language "text" ++ s!"): {count} chunks\n"

def grammarRow (g : Grammar) : List String :=
  [g.name, orMark (", ".intercalate g.aliases) "[dim]-[/dim]", g.packageName,
    ", ".intercalate g.boundaryKinds, if g.hasExtractor then "✓" else "✗"]

def languages : List Printed :=
  [.line "\n[bold]Registered Languages[/bold]\n",
    .table ⟨["Language", "Aliases", "Grammar", "Boundary Kinds", "Symbols"],
      Grammar.all.map grammarRow⟩,
    .line "\n[dim]Other languages are chunked by the text fallback splitter[/dim]"]

def marks : List String :=
  ["[bold]", "[/bold]", "[dim]", "[/dim]", "[yellow]", "[/yellow]", "[green]", "[/green]"]

/-- A line without the marks for its style. -/
def unmarked (s : String) : String := marks.foldl (fun s mark => s.replace mark "") s

def plainLines : Printed → List String
  | .line s => [unmarked s]
  | .table t => Table.lines ⟨t.columns, t.rows.map fun row => row.map unmarked⟩

/-- Chunks as a document, with a newline at its end. -/
def document (cs : List Chunk) : String :=
  (Value.list (cs.map Chunk.compactValue)).document ++ "\n"

end Report
end SourceChunking
