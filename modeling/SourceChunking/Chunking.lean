import SourceChunking.Chunk.Fallback
import SourceChunking.Chunk.Refinement
import SourceChunking.Fragment.Boundary
import SourceChunking.Fragment.Coverage
import SourceChunking.Settings.Basic
import SourceChunking.Source.Store
import SourceChunking.Symbol.Extraction

/-! # Chunking sources

A source whose grammar resolves and whose parse is usable is cut along its syntax,
gets its symbols and has the lines in between covered; any other source is divided
as plain text. Both ways end in the same refinement. The parser and the text
splitter are parameters; the parser is asked once for each source.
-/
namespace SourceChunking

structure Source where
  text : Text
  language : Text
  filePath : Option Text
deriving Repr, DecidableEq

abbrev Parser := Text → ParseOutcome

inductive ChunkingError where
  | invalidChunk (issues : List Issue)
  | badRefiner (e : RefinerError)

namespace Chunking

def loggerName : String := "codechunker.services.chunking"

/-- Gives each fragment that belongs to a node the symbols found below that node. -/
def withSymbols (symbolsOf : Nat → Logged (List Symbol)) : List Fragment → Logged (List Fragment)
  | [] => pure []
  | f :: rest => do
    let f ← match f.nodeIndex with
      | some i => do
        let symbols ← symbolsOf i.toNat
        pure { f with symbols := symbols }
      | none => pure f
    let rest ← withSymbols symbolsOf rest
    pure (f :: rest)

/-- The symbols on the lines of a fragment; the others are reported. -/
def symbolsWithin (start stop : Int) : List Symbol → Logged (List Symbol)
  | [] => pure []
  | s :: rest =>
    if Chunk.within start stop s.range then do
      let rest ← symbolsWithin start stop rest
      pure (s :: rest)
    else do
      Logged.debug loggerName
        ("Dropping symbol " ++ Text.quoted s.name ++ s!" outside lines {start}-{stop}") []
      symbolsWithin start stop rest

def toChunk (language : Text) (filePath : Option Text) (f : Fragment) :
    Logged (Checked Chunk) := do
  let symbols ← symbolsWithin f.startLine f.endLine f.symbols
  pure (Chunk.checked
    ⟨f.content, f.startLine, f.endLine, language, filePath, f.nodeKind.map Text.ofString, symbols⟩)

/-- The chunks of fragments, up to the first that is refused. -/
def toChunks (language : Text) (filePath : Option Text) :
    List Fragment → Logged (Except (List Issue) (List Chunk))
  | [] => pure (.ok [])
  | f :: rest => do
    match ← toChunk language filePath f with
    | .refused issues => pure (.error issues)
    | .ok c => do
      let rest ← toChunks language filePath rest
      pure (rest.map (c :: ·))

inductive Route where
  | chunks (cs : List Chunk)
  | refused (issues : List Issue)
  | plain (reason : Failure)

def structural (g : Grammar) (extractSymbols : Bool) (parser : Parser) (source : Source) :
    Logged Route := do
  match ← g.cut (parser source.text) source.text with
  | .error e => pure (.plain e)
  | .ok cut => do
    let fragments ←
      if extractSymbols && g.hasExtractor then
        withSymbols (extractFrom .none cut.tree cut.tree.lines) cut.fragments
      else pure cut.fragments
    match ← toChunks g.title source.filePath (fillGaps fragments source.text) with
    | .ok cs => pure (.chunks cs)
    | .error issues => pure (.refused issues)

def plain (settings : Settings) (splitter : TextSplitter) (source : Source) :
    Logged (List Chunk) :=
  Fallback.chunks splitter settings.maxChunkSize (Language.filedAs source.language)
    source.filePath source.text

def unrefined (settings : Settings) (parser : Parser) (splitter : TextSplitter)
    (grammar : Option Grammar) (source : Source) : Logged (Except ChunkingError (List Chunk)) :=
  match grammar with
  | none => do
    Logged.debug loggerName
      ("No grammar for " ++ Text.quoted source.language ++ ", using fallback splitter") []
    let cs ← plain settings splitter source
    pure (.ok cs)
  | some g => do
    match ← structural g settings.extractSymbols parser source with
    | .chunks cs => pure (.ok cs)
    | .refused issues => pure (.error (.invalidChunk issues))
    | .plain e => do
      Logged.warning loggerName (e.message ++ ". Falling back to text splitting.")
        [("file_path", Value.ofOption .text source.filePath), ("language", .text source.language)]
      let cs ← plain settings splitter source
      pure (.ok cs)

def shownPath (source : Source) : String :=
  match source.filePath with
  | some path => if path.isEmpty then "<text>" else Text.shown path
  | none => "<text>"

def refined (settings : Settings) (source : Source) (cs : List Chunk) :
    Logged (Except ChunkingError (List Chunk)) :=
  match Refiner.ofSizes settings.maxChunkSize settings.overlapSize with
  | .error e => pure (.error (.badRefiner e))
  | .ok r => do
    let cs ← r.refine cs
    Logged.debug loggerName s!"Chunked {shownPath source} into {cs.length} chunks"
      [("language", .text source.language), ("chunks", .int cs.length)]
    pure (.ok cs)

def chunkWith (settings : Settings) (parser : Parser) (splitter : TextSplitter)
    (grammar : Option Grammar) (source : Source) :
    Logged (Except ChunkingError (List Chunk)) := do
  match ← unrefined settings parser splitter grammar source with
  | .error e => pure (.error e)
  | .ok cs => refined settings source cs

end Chunking

def chunkSource (settings : Settings) (parser : Parser) (splitter : TextSplitter)
    (inst : Installation) (source : Source) :
    Logged (Except ChunkingError (List Chunk) × Installation) := do
  let (grammar, inst) ← inst.resolve source.language
  let cs ← Chunking.chunkWith settings parser splitter grammar source
  pure (cs, inst)

def Settings.supportsSymbols (s : Settings) (id : Text) : Bool :=
  s.extractSymbols && Language.hasSymbols id

namespace Language

/-- The language that the name of a file suggests: a registered one, or else the
extension itself. -/
def ofPath (p : Path) : Text :=
  match ofExtension? p.suffix with
  | some l => Text.ofString l.name
  | none => Text.lower (p.suffix.dropWhile (· == '.'))

def orText (language : Text) : Text :=
  if language.isEmpty then Text.ofString "text" else language

end Language

inductive ChunkFileError where
  | unreadable (e : FileError)
  | unchunkable (e : ChunkingError)

/-- The chunks of a file, in the language given or suggested by its name. -/
def chunkFile (settings : Settings) (parser : Parser) (splitter : TextSplitter)
    (inst : Installation) (store : Store) (path : Path) (language : Option Text) :
    Logged (Except ChunkFileError (List Chunk) × Installation) :=
  match store.read path.toString with
  | .error e => pure (.error (.unreadable e), inst)
  | .ok bytes => do
    let language := Language.orText (language.getD (Language.ofPath path))
    let text := Text.universalNewlines (Text.decode bytes)
    let (cs, inst) ← chunkSource settings parser splitter inst
      ⟨text, language, some (Text.ofString path.toString)⟩
    pure (cs.mapError .unchunkable, inst)

/-- The chunks of several sources, or the first error in their order. -/
def chunkSources (settings : Settings) (parser : Parser) (splitter : TextSplitter)
    (inst : Installation) :
    List Source → Logged (Except ChunkingError (List (List Chunk)) × Installation)
  | [] => pure (.ok [], inst)
  | source :: rest => do
    let (first, inst) ← chunkSource settings parser splitter inst source
    match first with
    | .error e => pure (.error e, inst)
    | .ok cs => do
      let (others, inst) ← chunkSources settings parser splitter inst rest
      pure (others.map (cs :: ·), inst)

inductive ChunkManyError where
  | badWorkers
  | unchunkable (e : ChunkingError)

def badWorkersMessage : String := "max_workers must be greater than 0"

/-- The number of workers asked for; none and zero mean the one in the settings. -/
def workerCount (settings : Settings) (workers : Option Int) : Int :=
  match workers with
  | some n => if n = 0 then settings.maxWorkers else n
  | none => settings.maxWorkers

/-- Chunks many sources. The workers share nothing, so their number shows only when
it is impossible. -/
def chunkMany (settings : Settings) (parser : Parser) (splitter : TextSplitter)
    (inst : Installation) (sources : List Source) (workers : Option Int) :
    Logged (Except ChunkManyError (List (List Chunk)) × Installation) :=
  if sources.isEmpty then pure (.ok [], inst)
  else if workerCount settings workers ≤ 0 then pure (.error .badWorkers, inst)
  else do
    let (results, inst) ← chunkSources settings parser splitter inst sources
    pure (results.mapError .unchunkable, inst)

end SourceChunking
