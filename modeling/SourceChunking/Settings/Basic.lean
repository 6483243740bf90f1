import SourceChunking.Validation

/-! # Settings

The settings of the engine, with their bounds. Values are checked when settings
are read or changed, so that no setting is out of bounds later.
-/
namespace SourceChunking

structure Settings where
  maxChunkSize : Int
  overlapSize : Int
  extractSymbols : Bool
  maxWorkers : Int
deriving Repr, DecidableEq

namespace Settings

def standard : Settings := ⟨2500, 300, true, 4⟩

def Valid (s : Settings) : Prop := 1 ≤ s.maxChunkSize ∧ 0 ≤ s.overlapSize ∧ 1 ≤ s.maxWorkers

instance (s : Settings) : Decidable s.Valid := inferInstanceAs (Decidable (_ ∧ _))

def recordName : String := "ChunkingConfig"

def fields (s : Settings) : List (String × Value) :=
  [("max_chunk_size", .int s.maxChunkSize), ("overlap_size", .int s.overlapSize),
    ("extract_symbols", .bool s.extractSymbols), ("max_workers", .int s.maxWorkers)]

def fieldNames : List String :=
  ["max_chunk_size", "overlap_size", "extract_symbols", "max_workers"]

def toValue (s : Settings) : Value := .object s.fields

def read : Value → Checked Settings :=
  Value.readRecord recordName fun fields =>
    Settings.mk <$> Value.defaulted fields "max_chunk_size" standard.maxChunkSize
        (Value.readAtLeast 1)
      <*> Value.defaulted fields "overlap_size" standard.overlapSize (Value.readAtLeast 0)
      <*> Value.defaulted fields "extract_symbols" standard.extractSymbols Value.readBoolean
      <*> Value.defaulted fields "max_workers" standard.maxWorkers (Value.readAtLeast 1)

/-- Changes one field. -/
def assign (s : Settings) (field : String) (v : Value) : Checked Settings :=
  if field = "max_chunk_size" then
    ((Value.readAtLeast 1 v).under (.key field)).map fun n => { s with maxChunkSize := n }
  else if field = "overlap_size" then
    ((Value.readAtLeast 0 v).under (.key field)).map fun n => { s with overlapSize := n }
  else if field = "extract_symbols" then
    ((Value.readBoolean v).under (.key field)).map fun b => { s with extractSymbols := b }
  else if field = "max_workers" then
    ((Value.readAtLeast 1 v).under (.key field)).map fun n => { s with maxWorkers := n }
  else (Checked.refuse (.unknownField field) v).under (.key field)

/-- The settings inside a whole configuration. -/
def readShared : Value → Checked Settings :=
  Value.readRecord "Config" fun fields => Value.defaulted fields "chunking" standard read

end Settings
end SourceChunking
