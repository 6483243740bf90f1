import SourceChunking.Chunk.Basic
import SourceChunking.Log.Record

/-! # Size and overlap

Refinement first splits every chunk that is too long into groups of whole lines,
packed greedily, and then puts the end of each chunk in front of the next one.
Lines are never cut: a line longer than the limit stands alone.
-/
namespace SourceChunking

structure Refiner where
  maxChunkSize : Nat
  overlapSize : Nat
deriving Repr, DecidableEq

inductive RefinerError where
  | badChunkSize (given : Int)
  | badOverlapSize (given : Int)
deriving Repr, DecidableEq

def RefinerError.message : RefinerError → String
  | .badChunkSize given => s!"max_chunk_size must be at least 1, got {given}"
  | .badOverlapSize given => s!"overlap_size must be non-negative, got {given}"

namespace Refiner

def ofSizes (maxChunkSize overlapSize : Int) : Except RefinerError Refiner :=
  if maxChunkSize < 1 then .error (.badChunkSize maxChunkSize)
  else if overlapSize < 0 then .error (.badOverlapSize overlapSize)
  else .ok ⟨maxChunkSize.toNat, overlapSize.toNat⟩

/-- The lines of a text, each with its newline; a final empty line is no line. -/
def wholeLines : Text → List Text
  | [] => []
  | c :: rest =>
    if c = '\n' then ['\n'] :: wholeLines rest
    else match wholeLines rest with
      | [] => [[c]]
      | line :: more => (c :: line) :: more

/-- Packs lines into groups: a line joins the group at hand if that fits. The lines
of this group are held latest first, together with their length. -/
def packFrom (limit : Nat) (length : Nat) (group : List Text) : List Text → List (List Text)
  | [] => [group.reverse]
  | line :: rest =>
    if !group.isEmpty && limit < length + line.length then
      group.reverse :: packFrom limit line.length [line] rest
    else packFrom limit (length + line.length) (line :: group) rest

def pack (limit : Nat) (lines : List Text) : List (List Text) := packFrom limit 0 [] lines

/-- The part of a chunk that consists of a group of its lines. -/
def part (c : Chunk) (group : List Text) (startLine endLine : Int) : Chunk :=
  { c with
    content := Text.dropFinalNewline group.flatten
    startLine := startLine
    endLine := endLine
    symbols := c.symbols.filter fun s => Chunk.within startLine endLine s.range }

/-- The parts for consecutive groups of lines; the last one reaches at least to the
end of the chunk. -/
def partsFrom (c : Chunk) (startLine : Int) : List (List Text) → List Chunk
  | [] => []
  | [group] => [part c group startLine (max (startLine + group.length - 1) c.endLine)]
  | group :: rest =>
    part c group startLine (startLine + group.length - 1) ::
      partsFrom c (startLine + group.length) rest

/-- A chunk within the limit stays as it is. -/
def splitChunk (r : Refiner) (c : Chunk) : List Chunk :=
  if c.content.length ≤ r.maxChunkSize then [c]
  else partsFrom c c.startLine (pack r.maxChunkSize (wholeLines c.content))

/-- A chunk with text of its predecessor and a newline in front, and its first line
moved up accordingly. -/
def overlapped (r : Refiner) (previous c : Chunk) : Chunk :=
  let tail := Text.takeLast r.overlapSize previous.content
  if tail.isEmpty then c
  else
    { c with
      content := tail ++ [.scalar '\n'] ++ c.content
      startLine := max 1 (c.startLine - (Text.newlines tail + 1)) }

def overlapFrom (r : Refiner) (previous : Chunk) : List Chunk → List Chunk
  | [] => []
  | c :: rest => r.overlapped previous c :: overlapFrom r c rest

/-- Puts overlap in front of every chunk but the first. -/
def addOverlap (r : Refiner) : List Chunk → List Chunk
  | [] => []
  | c :: rest => c :: r.overlapFrom c rest

def resize (r : Refiner) (cs : List Chunk) : List Chunk := cs.flatMap r.splitChunk

def refine (r : Refiner) (cs : List Chunk) : Logged (List Chunk) := do
  let sized := r.resize cs
  if sized.length ≠ cs.length then
    Logged.debug "codechunker.services.refiner"
      s!"Re-split {cs.length} chunks into {sized.length}" []
  pure (r.addOverlap sized)

end Refiner
end SourceChunking
