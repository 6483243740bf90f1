import SourceChunking.Chunk.Anchoring
import SourceChunking.Chunk.Basic
import SourceChunking.Log.Record
import SourceChunking.Separator.Dialect

/-! # Chunks of plain text

What cannot be cut along its syntax is divided by a text splitter. Whatever the
division yields, the chunks are consecutive sections of the text; if it fails or
finds nothing, the text is one chunk.
-/
namespace SourceChunking

namespace Fallback

def loggerName : String := "codechunker.services.fallback"

def chunkOf (language : Text) (filePath : Option Text) (s : Section) : Chunk :=
  ⟨s.content, s.startLine, s.endLine, language, filePath, none, []⟩

/-- The division for a language. Where its dialect is refused for a bad value this is
reported, and the general splitter is tried. -/
def divisionFor (splitter : TextSplitter) (size : Int) (language : Text) :
    Logged (Except String Division) :=
  match Dialect.ofIdentifier? language with
  | none => pure (splitter.general size)
  | some d =>
    match splitter.forDialect d size with
    | .ok division => pure (.ok division)
    | .error (.failed reason) => pure (.error reason)
    | .error .badValue => do
      Logged.debug loggerName
        ("No LangChain separators for " ++ Text.shown language ++ ", using generic splitter") []
      pure (splitter.general size)

def pieces (splitter : TextSplitter) (size : Int) (language : Text) (t : Text) :
    Logged (Except String (List Text)) := do
  let division ← divisionFor splitter size language
  pure (division.bind fun divide => divide t)

/-- The sections that a division gives; a failed one is reported and gives none. -/
def sections (language : Text) (filePath : Option Text) (t : Text) :
    Except String (List Text) → Logged (Option (List Section))
  | .ok ps => pure (Section.ofPieces t ps)
  | .error e => do
    Logged.warning loggerName
      ("Text splitter failed for " ++ Text.shown language ++ s!": {e}. Using a single chunk.")
      [("language", .text language), ("file_path", Value.ofOption .text filePath)]
    pure none

def chunksOf (language : Text) (filePath : Option Text) (t : Text)
    (division : Except String (List Text)) : Logged (List Chunk) := do
  match ← sections language filePath t division with
  | none => pure [chunkOf language filePath (Section.whole t)]
  | some ss => do
    Logged.debug loggerName
      ("Fallback split " ++ Text.shown language ++ s!" source into {ss.length} chunks")
      [("language", .text language), ("chunks", .int ss.length)]
    pure (ss.map (chunkOf language filePath))

/-- The chunks of a text that some division takes apart. A blank text is one chunk
as it is and is not divided. -/
def chunksBy (language : Text) (filePath : Option Text) (t : Text)
    (division : Logged (Except String (List Text))) : Logged (List Chunk) :=
  if Text.allBlank t then pure [chunkOf language filePath (Section.whole t)]
  else do
    let outcome ← division
    chunksOf language filePath t outcome

def chunks (splitter : TextSplitter) (size : Int) (language : Text) (filePath : Option Text)
    (t : Text) : Logged (List Chunk) :=
  chunksBy language filePath t (pieces splitter size language t)

end Fallback
end SourceChunking
