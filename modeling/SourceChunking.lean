import SourceChunking.Text.Basic
import SourceChunking.Text.Utf8
import SourceChunking.Text.Word
import SourceChunking.Text.Printable
import SourceChunking.Text.Case
import SourceChunking.Text.Lowercase
import SourceChunking.Text.Integer
import SourceChunking.Text.Quoted
import SourceChunking.Text.Similarity
import SourceChunking.Span
import SourceChunking.Tree.Basic
import SourceChunking.Tree.Navigation
import SourceChunking.Binary
import SourceChunking.Value
import SourceChunking.Log.Record
import SourceChunking.Validation
import SourceChunking.Symbol.Basic
import SourceChunking.Symbol.Data
import SourceChunking.Chunk.Basic
import SourceChunking.Failure
import SourceChunking.Language
import SourceChunking.Grammar
import SourceChunking.Fragment.Basic
import SourceChunking.Fragment.Boundary
import SourceChunking.Fragment.Coverage
import SourceChunking.Symbol.Comment
import SourceChunking.Symbol.Declarator
import SourceChunking.Symbol.Access
import SourceChunking.Symbol.Metadata
import SourceChunking.Symbol.Extraction
import SourceChunking.Separator.Dialect
import SourceChunking.Separator.Pattern
import SourceChunking.Separator.Table
import SourceChunking.Separator.Division
import SourceChunking.Chunk.Anchoring
import SourceChunking.Chunk.Fallback
import SourceChunking.Chunk.Refinement
import SourceChunking.Source.Path
import SourceChunking.Source.Store
import SourceChunking.Settings.Basic
import SourceChunking.Settings.Record
import SourceChunking.Settings.Session
import SourceChunking.Chunking
import SourceChunking.Log.Date
import SourceChunking.Log.Handlers
import SourceChunking.Log.Operation
import SourceChunking.Source.Glob
import SourceChunking.Command.Arguments
import SourceChunking.Command.Report
import SourceChunking.Command.Benchmark
import SourceChunking.Command.Run
import SourceChunking.Main
import SourceChunking.Proofs.Lines
import SourceChunking.Proofs.Decoding
import SourceChunking.Proofs.Refinement
import SourceChunking.Proofs.Fallback
import SourceChunking.Proofs.Rejoining
import SourceChunking.Proofs.Anchoring
import SourceChunking.Proofs.Offsets
import SourceChunking.Proofs.Coverage
import SourceChunking.Proofs.LineRuns
import SourceChunking.Proofs.Idempotence
import SourceChunking.Proofs.Boundaries
import SourceChunking.Proofs.Chunking
import SourceChunking.Proofs.Overlap
import SourceChunking.Proofs.Descent
import SourceChunking.Proofs.Building
import SourceChunking.Proofs.AccessLevels
import SourceChunking.Proofs.Declarators
import SourceChunking.Proofs.Extraction
import SourceChunking.Proofs.Locality
import SourceChunking.Proofs.SymbolsByChunk
import SourceChunking.Proofs.PreOrder
import SourceChunking.Proofs.Constructors
import SourceChunking.Proofs.OwnName
import SourceChunking.Proofs.SizeBound
import SourceChunking.Proofs.Partition
import SourceChunking.Proofs.Packing
import SourceChunking.Proofs.StartLines
import SourceChunking.Proofs.Annotation
import SourceChunking.Proofs.Reading
import SourceChunking.Proofs.RoundTrip
import SourceChunking.Proofs.SymbolParts
import SourceChunking.Proofs.Sessions
import SourceChunking.Proofs.Handlers
import SourceChunking.Proofs.Documentation
import SourceChunking.Proofs.Stability
import SourceChunking.Proofs.Listing
import SourceChunking.Proofs.Arena
import SourceChunking.Proofs.Traversal
