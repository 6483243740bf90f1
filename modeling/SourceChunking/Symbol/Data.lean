import SourceChunking.Symbol.Basic

/-! # Symbols as data

Each part of a symbol is written as an object with a fixed order of fields and
read back from any object that has the required ones.
-/
namespace SourceChunking

def SymbolKind.read : Value → Checked SymbolKind :=
  Value.readChoice (SymbolKind.all.map fun k => (k.name, k))

def Access.read : Value → Checked Access :=
  Value.readChoice (Access.all.map fun a => (a.name, a))

namespace Position

def toValue (p : Position) : Value := .object [("line", .int p.line), ("column", .int p.column)]

def read : Value → Checked Position :=
  Value.readRecord "SourcePosition" fun fields =>
    Position.mk <$> Value.required fields "line" (Value.readAtLeast 1)
      <*> Value.required fields "column" (Value.readAtLeast 0)

end Position

namespace SymbolRange

def toValue (r : SymbolRange) : Value :=
  .object [("start_line", .int r.startLine), ("end_line", .int r.endLine),
    ("start_column", .int r.startColumn), ("end_column", .int r.endColumn)]

/-- The check of a whole range: it does not end before it starts. -/
def ordered (input : Value) (r : SymbolRange) : Checked SymbolRange :=
  if r.endLine < r.startLine then
    Checked.refuse (.endsBeforeStart r.endLine r.startLine) input
  else .ok r

def read : Value → Checked SymbolRange :=
  Value.readRecord "SymbolRange" fun fields =>
    (SymbolRange.mk <$> Value.required fields "start_line" (Value.readAtLeast 1)
      <*> Value.required fields "end_line" (Value.readAtLeast 1)
      <*> Value.defaulted fields "start_column" 0 (Value.readAtLeast 0)
      <*> Value.defaulted fields "end_column" 0 (Value.readAtLeast 0)).andThen
        (ordered (.object fields))

end SymbolRange

namespace Parameter

def toValue (p : Parameter) : Value :=
  .object [("name", .text p.name), ("type", Value.ofOption .text p.type)]

def read : Value → Checked Parameter :=
  Value.readRecord "SymbolParameter" fun fields =>
    Parameter.mk <$> Value.required fields "name" Value.readText
      <*> Value.optional fields "type" Value.readText

end Parameter

namespace Symbol

def toValue (s : Symbol) : Value :=
  .object
    [("name", .text s.name), ("kind", Value.ofString s.kind.name), ("range", s.range.toValue),
      ("definition", Value.ofOption Position.toValue s.definition),
      ("usages", .list (s.usages.map Position.toValue)),
      ("documentation", Value.ofOption .text s.documentation),
      ("signature", Value.ofOption .text s.signature),
      ("return_type", Value.ofOption .text s.returnType),
      ("parameters", .list (s.parameters.map Parameter.toValue)),
      ("parent_symbol", Value.ofOption .text s.parentSymbol),
      ("scope", Value.ofOption (fun a => Value.ofString a.name) s.scope),
      ("is_static", Value.ofOption .bool s.isStatic),
      ("is_virtual", Value.ofOption .bool s.isVirtual),
      ("is_const", Value.ofOption .bool s.isConst),
      ("base_classes", .list (s.baseClasses.map .text))]

def read : Value → Checked Symbol :=
  Value.readRecord "SymbolInfo" fun fields =>
    Symbol.mk <$> Value.required fields "name" Value.readText
      <*> Value.required fields "kind" SymbolKind.read
      <*> Value.required fields "range" SymbolRange.read
      <*> Value.optional fields "definition" Position.read
      <*> Value.defaulted fields "usages" [] (Value.readList Position.read)
      <*> Value.optional fields "documentation" Value.readText
      <*> Value.optional fields "signature" Value.readText
      <*> Value.optional fields "return_type" Value.readText
      <*> Value.defaulted fields "parameters" [] (Value.readList Parameter.read)
      <*> Value.optional fields "parent_symbol" Value.readText
      <*> Value.optional fields "scope" Access.read
      <*> Value.optional fields "is_static" Value.readBoolean
      <*> Value.optional fields "is_virtual" Value.readBoolean
      <*> Value.optional fields "is_const" Value.readBoolean
      <*> Value.defaulted fields "base_classes" [] (Value.readList Value.readText)

end Symbol
end SourceChunking
