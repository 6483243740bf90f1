import SourceChunking.Command.Run
import SourceChunking.Separator.Division

/-! # The program

Loads what the arguments name, runs the command and shows its outcome. No parser is
linked in, so every language is divided as plain text.
-/
open SourceChunking

namespace SourceChunking.Program

/-- Everything at or below a path, by its place. -/
partial def load (path : String) (place : List String) : IO Store := do
  let here := (← IO.currentDir) / path
  if ← here.isDir then
    let mut store : Store := ⟨[(place, .directory)], []⟩
    for entry in ← here.readDir do
      let below ← load (path ++ "/" ++ entry.fileName) (place ++ [entry.fileName])
      store := ⟨store.entries ++ below.entries, store.refusals ++ below.refusals⟩
    return store
  else if ← here.pathExists then
    try
      let bytes ← IO.FS.readBinFile here
      return ⟨[(place, .file bytes.toList)], []⟩
    catch e => return ⟨[(place, .file [])], [((Path.ofString path).toString, toString e)]⟩
  else return Store.empty

def placeOf (path : Path) : List String :=
  if path.root.isEmpty then path.components else "/" :: path.components

/-- The store of all arguments that name something. -/
def loadAll : List String → IO Store
  | [] => return Store.empty
  | arg :: rest => do
    let path := Path.ofString arg
    let first ← if arg.isEmpty then pure Store.empty else load path.toString (placeOf path)
    let others ← loadAll rest
    return ⟨first.entries ++ others.entries, first.refusals ++ others.refusals⟩

def stopMessage : CommandStop → String
  | .unreadable e => e.message
  | .badPattern e => e.message
  | .badTime e => e.message
  | .unchunkable (.invalidChunk issues) => Issue.reportAll "CodeChunk" issues
  | .unchunkable (.badRefiner e) => e.message

def workplace (store : Store) : Workplace where
  shared := Settings.standard
  parser := fun _ => .nothing
  splitter := .recursive
  inst := ⟨Grammar.all.map (·.moduleName), []⟩
  store := store
  tick := .microseconds 0

end SourceChunking.Program

open SourceChunking.Program in
def main (args : List String) : IO UInt32 := do
  let store ← loadAll args
  let log := (Logging.fresh.setEnvironment (← IO.getEnv "LOG_LEVEL")).setup .plain
  if let some p := log.problem then
    IO.eprintln p.message
    return 1
  let run := Command.run (workplace store) log.state args
  let (outcome, log) := run.value
  for r in run.records do
    if log.threshold ≤ r.level then IO.eprintln r.columnLine
  match outcome with
  | .done result =>
    for item in result.printed do
      for line in Report.plainLines item do
        IO.println line
    IO.print result.document
    return 0
  | .refused e =>
    IO.eprintln ("Error: " ++ e.message)
    return UInt32.ofNat e.exitCode
  | .stopped e =>
    IO.eprintln (stopMessage e)
    return 1
