import SourceChunking.Validation

/-! # Symbols

A symbol is a named declaration with the lines it spans, the places where its
name is used, and whatever else could be read about it. Positions and ranges have
constraints; a symbol is only ever built on a range that meets them.
-/
namespace SourceChunking

inductive SymbolKind where
  | function
  | method
  | constructor
  | classType
  | structType
  | unionType
  | enumType
  | namespaceScope
  | field
deriving Repr, DecidableEq

namespace SymbolKind

def name : SymbolKind → String
  | function => "function"
  | method => "method"
  | constructor => "constructor"
  | classType => "class"
  | structType => "struct"
  | unionType => "union"
  | enumType => "enum"
  | namespaceScope => "namespace"
  | field => "field"

def all : List SymbolKind :=
  [function, method, constructor, classType, structType, unionType, enumType, namespaceScope, field]

end SymbolKind

/-- Access level of a member. -/
inductive Access where
  | publicMember
  | privateMember
  | protectedMember
deriving Repr, DecidableEq

namespace Access

def name : Access → String
  | publicMember => "public"
  | privateMember => "private"
  | protectedMember => "protected"

def all : List Access := [publicMember, privateMember, protectedMember]

def ofText? (t : Text) : Option Access := all.find? fun a => Text.ofString a.name == t

end Access

/-- A line counted from one and a byte column counted from zero. -/
structure Position where
  line : Int
  column : Int
deriving Repr, DecidableEq

def Position.Valid (p : Position) : Prop := 1 ≤ p.line ∧ 0 ≤ p.column

instance (p : Position) : Decidable p.Valid := inferInstanceAs (Decidable (_ ∧ _))

structure SymbolRange where
  startLine : Int
  endLine : Int
  startColumn : Int
  endColumn : Int
deriving Repr, DecidableEq

namespace SymbolRange

def Valid (r : SymbolRange) : Prop :=
  1 ≤ r.startLine ∧ 1 ≤ r.endLine ∧ 0 ≤ r.startColumn ∧ 0 ≤ r.endColumn ∧
    r.startLine ≤ r.endLine

instance (r : SymbolRange) : Decidable r.Valid := inferInstanceAs (Decidable (_ ∧ _))

end SymbolRange

structure Parameter where
  name : Text
  type : Option Text
deriving Repr, DecidableEq

structure Symbol where
  name : Text
  kind : SymbolKind
  range : SymbolRange
  definition : Option Position
  usages : List Position
  documentation : Option Text
  signature : Option Text
  returnType : Option Text
  parameters : List Parameter
  parentSymbol : Option Text
  scope : Option Access
  isStatic : Option Bool
  isVirtual : Option Bool
  isConst : Option Bool
  baseClasses : List Text
deriving Repr, DecidableEq

namespace Symbol

def Valid (s : Symbol) : Prop :=
  s.range.Valid ∧ (∀ p ∈ s.definition, p.Valid) ∧ ∀ p ∈ s.usages, p.Valid

instance (s : Symbol) : Decidable s.Valid := inferInstanceAs (Decidable (_ ∧ _))

/-- A symbol of which only name, kind and range are known. -/
def bare (name : Text) (kind : SymbolKind) (range : SymbolRange) : Symbol where
  name := name
  kind := kind
  range := range
  definition := none
  usages := []
  documentation := none
  signature := none
  returnType := none
  parameters := []
  parentSymbol := none
  scope := none
  isStatic := none
  isVirtual := none
  isConst := none
  baseClasses := []

/-- The name behind that of the enclosing symbol, if there is one. -/
def qualifiedName (s : Symbol) : Text :=
  match s.parentSymbol with
  | some parent => if parent.isEmpty then s.name else parent ++ Text.ofString "::" ++ s.name
  | none => s.name

end Symbol
end SourceChunking
