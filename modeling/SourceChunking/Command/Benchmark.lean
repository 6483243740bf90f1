import SourceChunking.Chunking
import SourceChunking.Command.Report
import SourceChunking.Log.Operation
import SourceChunking.Source.Glob

/-! # Timing a source tree

Every matching file below a directory is chunked and timed. Files that cannot be
read are reported and left out of the totals, though they count as processed.
-/
namespace SourceChunking

/-- What commands work with. The clock moves by `tick` whenever it is read, so
that every timed operation takes that long; it may run backwards. -/
structure Workplace where
  shared : Settings
  parser : Parser
  splitter : TextSplitter
  inst : Installation
  store : Store
  tick : Lapse

namespace Benchmark

def loggerName : String := "codechunker.cli"

structure Totals where
  lines : Int
  chunks : Nat
  symbols : Nat
  seconds : Binary
deriving Repr, DecidableEq

def Totals.zero : Totals := ⟨0, 0, 0, .zero⟩

structure Progress where
  warnings : List Printed
  rows : List (List String)
  totals : Totals
  inst : Installation
  time : Int

def precedes : List String → List String → Bool
  | [], _ => true
  | _ :: _, [] => false
  | a :: p, b :: q => if a = b then precedes p q else Text.precedes (Text.ofString a) (Text.ofString b)

inductive Problem where
  | badPattern (e : GlobError)
  | unsearchable (e : FileError)
  | unchunkable (e : ChunkingError)
  | badTime (e : TimeError)

def matching (store : Store) (root : Path) (place : List String) (pattern : String) :
    Except Problem (List Path) := do
  let glob ← (Glob.read pattern).mapError .badPattern
  (glob.files store root place).mapError .unsearchable

/-- The files to chunk below a place: those that the patterns lead to, or, without
any pattern, those whose extension belongs to some language. -/
def candidates (store : Store) (root : Path) (place : List String) :
    List String → Except Problem (List Path)
  | [] => do
    let files ← (Glob.everything.files store root place).mapError .unsearchable
    pure (files.filter fun path => (Language.ofExtension? path.suffix).isSome)
  | patterns => do
    let found ← patterns.mapM (matching store root place)
    pure found.flatten

/-- The candidates, each once and ordered by their components. -/
def wantedFiles (store : Store) (root : Path) (place : List String) (patterns : List String) :
    Except Problem (List Path) :=
  (candidates store root place patterns).map fun found =>
    (found.mergeSort fun a b => precedes a.components b.components).eraseDups

def lastLine (cs : List Chunk) : Int := (cs.map (·.endLine)).foldl max 0

def symbolCount (cs : List Chunk) : Nat := (cs.flatMap (·.symbols)).length

def row (shown : String) (seconds : Binary) (cs : List Chunk) : List String :=
  [shown, toString (lastLine cs), toString cs.length, toString (symbolCount cs),
    seconds.milliseconds]

def Totals.add (t : Totals) (seconds : Binary) (cs : List Chunk) : Totals :=
  ⟨t.lines + lastLine cs, t.chunks + cs.length, t.symbols + symbolCount cs,
    t.seconds.add seconds⟩

def unreadable (path : Path) (e : FileError) : Printed :=
  .line ("[yellow]Warning: Failed to read " ++ path.toString ++ ": " ++ e.message ++ "[/yellow]")

/-- What is printed and counted for a file that could be read, or not. -/
def Progress.add (p : Progress) (duration : Int) (path : Path) (shown : String) :
    Except FileError (List Chunk) → Progress
  | .error e => { p with warnings := p.warnings ++ [unreadable path e] }
  | .ok cs => { p with
    rows := p.rows ++ [row shown (secondsOf duration) cs]
    totals := p.totals.add (secondsOf duration) cs }

def ended (duration : Int) (context : List (String × Value)) :
    Except FileError (List Chunk) → Record
  | .error _ => Operation.ended loggerName "Chunking" duration false context
  | .ok cs =>
    Operation.ended loggerName "Chunking" duration true (context ++ [("chunks", .int cs.length)])

/-- Reads the clock and then reports that a file is done with. -/
def finish (w : Workplace) (p : Progress) (start : Int) (path : Path) (shown : String)
    (context : List (String × Value)) (result : Except FileError (List Chunk)) :
    Logged (Except Problem Progress) :=
  match timeAfter start w.tick with
  | .error e => pure (.error (.badTime e))
  | .ok stop => do
    Logged.log (ended (stop - start) context result)
    pure (.ok ({ p with time := stop }.add (stop - start) path shown result))

/-- Chunks and times one file; the clock is read once its start is reported. -/
def file (w : Workplace) (root : Path) (p : Progress) (path : Path) :
    Logged (Except Problem Progress) := do
  let shown := Path.toString ⟨"", path.components.drop root.components.length⟩
  let context := [("path", Value.ofString shown)]
  Logged.log (Operation.started loggerName "Chunking" context)
  match timeAfter p.time w.tick with
  | .error e => pure (.error (.badTime e))
  | .ok start => do
    let (result, inst) ← chunkFile w.shared w.parser w.splitter p.inst w.store path none
    let p := { p with inst := inst }
    match result with
    | .error (.unchunkable e) => pure (.error (.unchunkable e))
    | .error (.unreadable e) => finish w p start path shown context (.error e)
    | .ok cs => finish w p start path shown context (.ok cs)

def files (w : Workplace) (root : Path) : Progress → List Path →
    Logged (Except Problem Progress)
  | p, [] => pure (.ok p)
  | p, path :: rest => do
    match ← file w root p path with
    | .error e => pure (.error e)
    | .ok p => files w root p rest

def summary (count : Nat) (t : Totals) : String :=
  s!"\n[green]Processed {count} files, {t.lines} lines: {t.chunks} chunks, " ++
    s!"{t.symbols} symbols in {t.seconds.milliseconds} ms[/green]"

def printed (count : Nat) (p : Progress) : List Printed :=
  p.warnings ++ [.table ⟨["File", "Lines", "Chunks", "Symbols", "Time (ms)"], p.rows⟩,
    .line (summary count p.totals)]

def run (w : Workplace) (root : Path) (place : List String) (patterns : List String) :
    Logged (Except Problem (List Printed)) :=
  match wantedFiles w.store root place patterns with
  | .error e => pure (.error e)
  | .ok [] => pure (.ok [.line "[yellow]No matching files found[/yellow]"])
  | .ok wanted => do
    let p ← files w root ⟨[], [], .zero, w.inst, 0⟩ wanted
    pure (p.map (printed wanted.length))

end Benchmark
end SourceChunking
