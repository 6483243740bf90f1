import SourceChunking.Failure
import SourceChunking.Symbol.Access
import SourceChunking.Symbol.Data
import SourceChunking.Symbol.Metadata

/-! # Extracting symbols

Extraction makes two passes over a subtree. The first collects the places where
names are used outside declarations; the second builds one symbol for each node
that declares something. What fails is given up alone: a failing first pass empties
the result, a failing node is left out, and a failing piece of metadata leaves its
field blank. Which readers fail is part of the input, as a fault plan, so that the
cost of a failure can be stated.
-/
namespace SourceChunking

def usageKinds : List String :=
  ["identifier", "field_identifier", "type_identifier", "namespace_identifier"]

def declarationContexts : List String :=
  ["function_declarator", "type_identifier", "field_declaration", "parameter_declaration",
    "optional_parameter_declaration", "class_specifier", "struct_specifier", "enum_specifier",
    "union_specifier", "namespace_definition"]

inductive MetadataReader where
  | documentation
  | signature
  | returnType
  | parameters
  | parentSymbol
  | scope
  | baseClasses
  | constness
  | words
deriving Repr, DecidableEq

/-- Which parts of an extraction fail, each with what it says. -/
structure FaultPlan where
  reader : MetadataReader → Option String
  usages : Option String
  kind : String → Option String

def FaultPlan.none : FaultPlan := ⟨fun _ => .none, .none, fun _ => .none⟩

inductive BuildFailure where
  | fault (text : String)
  | invalid (record : String) (issues : List Issue)

def BuildFailure.message : BuildFailure → String
  | .fault text => text
  | .invalid record issues => Issue.fullReportAll record issues

/-- What a node declares: the node of its name, and what its kind needs besides. -/
inductive Declaration where
  | function (declarator : Nat) (name : ResolvedName)
  | type (kind : SymbolKind) (name : ResolvedName)
  | scope (nameNode : Nat) (name : Text)
  | field (declarator : Nat) (name : ResolvedName)
deriving Repr, DecidableEq

def Declaration.nameNode : Declaration → Nat
  | .function _ name => name.node
  | .type _ name => name.node
  | .scope nameNode _ => nameNode
  | .field _ name => name.node

def typeKind? (kind : String) : Option SymbolKind :=
  if kind = "class_specifier" then some .classType
  else if kind = "struct_specifier" then some .structType
  else if kind = "union_specifier" then some .unionType
  else if kind = "enum_specifier" then some .enumType
  else none

namespace Tree

def declaredName? (t : Tree) (n : Option Nat) : Option ResolvedName :=
  (t.resolveName n).filter fun name => !(name.text t).isEmpty

def functionAt? (t : Tree) (i : Nat) : Option Declaration :=
  match (t.unwrapDeclarator (t.childByField i "declarator")).1 with
  | some d =>
    if t.kind d = "function_declarator" then
      (t.declaredName? (t.childByField d "declarator")).map (.function d)
    else none
  | none => none

def typeAt? (t : Tree) (i : Nat) (kind : SymbolKind) : Option Declaration :=
  match t.childByField i "body" with
  | some _ => (t.declaredName? (t.childByField i "name")).map (.type kind)
  | none => none

def scopeAt? (t : Tree) (i : Nat) : Option Declaration :=
  match t.childByField i "name" with
  | some n =>
    let name := Text.trim (t.text n)
    if name.isEmpty then none else some (.scope n name)
  | none => none

def fieldAt? (t : Tree) (i : Nat) : Option Declaration :=
  match t.childByField i "declarator" with
  | none => none
  | some root =>
    match (t.unwrapDeclarator (some root)).1 with
    | none => none
    | some d =>
      if t.kind d = "function_declarator" then t.functionAt? i
      else (t.declaredName? (t.pastInitializers t.size (some d))).map (.field root)

/-- What a node declares, if anything. Prototypes of constructors and destructors
are plain declarations inside a class body. -/
def declaration? (t : Tree) (i : Nat) : Option Declaration :=
  if t.kind i = "function_definition" then t.functionAt? i
  else match typeKind? (t.kind i) with
    | some kind => t.typeAt? i kind
    | none =>
      if t.kind i = "namespace_definition" then t.scopeAt? i
      else if t.kind i = "field_declaration" then t.fieldAt? i
      else if t.kind i = "declaration" then
        match t.memberList? i with
        | some _ => t.functionAt? i
        | none => none
      else none

def ownerName? (t : Tree) (body : Nat) : Option Text :=
  match t.parent? body with
  | some owner => (t.resolveName (t.childByField owner "name")).map (·.text t)
  | none => none

/-- The last part of a qualifier, without template arguments. -/
def lastQualifier (qualifier : Text) : Text :=
  ((Text.afterLast? scopeMark qualifier).getD qualifier).takeWhile (· != '<')

/-- A function named after its class is a constructor; in a class body every other
one is a method. -/
def functionKind (t : Tree) (name : ResolvedName) (body : Option Nat) : SymbolKind :=
  match body with
  | some body =>
    if t.ownerName? body = some (name.text t) then .constructor else .method
  | none =>
    match name.qualifier? with
    | some qualifier => if name.text t = lastQualifier qualifier then .constructor else .function
    | none => .function

def rangeOf (t : Tree) (i : Nat) : SymbolRange :=
  let n := t.node i
  ⟨n.startLine, n.endLine, n.startColumn, n.endColumn⟩

def positionOf (t : Tree) (i : Nat) : Position :=
  let n := t.node i
  ⟨n.startLine, n.startColumn⟩

def isUsage (t : Tree) (i : Nat) : Bool :=
  usageKinds.contains (t.kind i) &&
    (t.parent? i).any fun p => !declarationContexts.contains (t.kind p)

end Tree

abbrev Usages := List (Text × Position)

def Usages.of (usages : Usages) (name : Text) : List Position :=
  (usages.filter fun u => u.1 == name).map Prod.snd

/-- The first pass. A use at an impossible place makes it fail. -/
def collectUsages (plan : FaultPlan) (t : Tree) (root : Nat) : Except BuildFailure Usages :=
  match plan.usages with
  | some text => .error (.fault text)
  | none =>
    let uses := (t.walk root).filter t.isUsage
    match uses.find? fun i => !decide (t.positionOf i).Valid with
    | some i =>
      match Position.read (t.positionOf i).toValue with
      | .refused issues => .error (.invalid "SourcePosition" issues)
      | .ok _ => .error (.invalid "SourcePosition" [])
    | none => .ok (uses.map fun i => (t.text i, t.positionOf i))

/-- What stays the same while the symbols of a subtree are built. -/
structure Extraction where
  plan : FaultPlan
  tree : Tree
  lines : List Text
  usages : Usages

namespace Extraction

def loggerName : String := "codechunker.parsers.base"

/-- A piece of metadata, or nothing and a warning when its reader fails. -/
def enrich {α : Type} (x : Extraction) (i : Nat) (field : String) (reader : MetadataReader)
    (value : α) : Logged (Option α) :=
  match x.plan.reader reader with
  | none => pure (some value)
  | some text => do
    let kind := x.tree.kind i
    Logged.warning loggerName
      (Failure.message (.fieldUnreadable (Value.ofString field) (Value.ofString kind)) ++
        s!" at line {(x.tree.node i).startLine}: " ++ text)
      [("field", Value.ofString field), ("node_kind", Value.ofString kind)]
    pure none

/-- The access level of a node. A failing reader leaves the cache alone. -/
def enrichScope (x : Extraction) (cache : AccessCache) (i : Nat) (body : Option Nat) :
    Logged (Option Access × AccessCache) := do
  match ← x.enrich i "scope" .scope () with
  | some _ => x.tree.accessOf cache i body
  | none => pure (none, cache)

def newSymbol (x : Extraction) (i : Nat) (name : Text) (kind : SymbolKind) : Symbol :=
  { Symbol.bare name kind (x.tree.rangeOf i) with
    definition := some (x.tree.positionOf i)
    usages := x.usages.of name }

def functionSymbol (x : Extraction) (cache : AccessCache) (i declarator : Nat)
    (name : ResolvedName) : Logged (Symbol × AccessCache) := do
  let t := x.tree
  let body := t.memberList? i
  let before := t.slice (t.node i).startByte (t.node declarator).startByte
  let documentation ← x.enrich i "documentation" .documentation (t.documentation x.lines i)
  let signature ← x.enrich i "signature" .signature (t.signature i)
  let returnType ← x.enrich i "return_type" .returnType (t.returnType i)
  let parameters ← x.enrich i "parameters" .parameters (t.parameters declarator)
  let parentSymbol ← x.enrich i "parent_symbol" .parentSymbol (t.parentSymbol i name.qualifier?)
  let (scope, cache) ← x.enrichScope cache i body
  let isStatic ← x.enrich i "is_static" .words (Text.hasWord (Text.ofString "static") before)
  let isVirtual ← x.enrich i "is_virtual" .words (Text.hasWord (Text.ofString "virtual") before)
  let isConst ← x.enrich i "is_const" .constness (t.isConstFunction declarator)
  pure ({ x.newSymbol i (name.text t) (t.functionKind name body) with
    documentation := documentation.join
    signature := signature
    returnType := returnType.join
    parameters := parameters.getD []
    parentSymbol := parentSymbol.join
    scope := scope
    isStatic := isStatic
    isVirtual := isVirtual
    isConst := isConst }, cache)

def typeSymbol (x : Extraction) (cache : AccessCache) (i : Nat) (kind : SymbolKind)
    (name : ResolvedName) : Logged (Symbol × AccessCache) := do
  let t := x.tree
  let baseClasses ←
    if kind = .classType ∨ kind = .structType then
      x.enrich i "base_classes" .baseClasses (t.baseClasses i)
    else pure none
  let documentation ← x.enrich i "documentation" .documentation (t.documentation x.lines i)
  let parentSymbol ← x.enrich i "parent_symbol" .parentSymbol (t.parentSymbol i none)
  let (scope, cache) ← x.enrichScope cache i (t.memberList? i)
  pure ({ x.newSymbol i (name.text t) kind with
    documentation := documentation.join
    parentSymbol := parentSymbol.join
    scope := scope
    baseClasses := baseClasses.getD [] }, cache)

def scopeSymbol (x : Extraction) (cache : AccessCache) (i : Nat) (name : Text) :
    Logged (Symbol × AccessCache) := do
  let t := x.tree
  let documentation ← x.enrich i "documentation" .documentation (t.documentation x.lines i)
  let parentSymbol ← x.enrich i "parent_symbol" .parentSymbol (t.parentSymbol i none)
  pure ({ x.newSymbol i name .namespaceScope with
    documentation := documentation.join
    parentSymbol := parentSymbol.join }, cache)

def fieldSymbol (x : Extraction) (cache : AccessCache) (i declarator : Nat)
    (name : ResolvedName) : Logged (Symbol × AccessCache) := do
  let t := x.tree
  let before := t.slice (t.node i).startByte (t.node declarator).startByte
  let documentation ← x.enrich i "documentation" .documentation (t.documentation x.lines i)
  let parentSymbol ← x.enrich i "parent_symbol" .parentSymbol (t.parentSymbol i none)
  let (scope, cache) ← x.enrichScope cache i (t.memberList? i)
  let isStatic ← x.enrich i "is_static" .words (Text.hasWord (Text.ofString "static") before)
  let isConst ← x.enrich i "is_const" .words (Text.hasWord (Text.ofString "const") before)
  pure ({ x.newSymbol i (name.text t) .field with
    documentation := documentation.join
    parentSymbol := parentSymbol.join
    scope := scope
    isStatic := isStatic
    isVirtual := some false
    isConst := isConst }, cache)

def symbolOf (x : Extraction) (cache : AccessCache) (i : Nat) :
    Declaration → Logged (Symbol × AccessCache)
  | .function declarator name => x.functionSymbol cache i declarator name
  | .type kind name => x.typeSymbol cache i kind name
  | .scope _ name => x.scopeSymbol cache i name
  | .field declarator name => x.fieldSymbol cache i declarator name

/-- A symbol is kept only on a range that meets the constraints. -/
def onValidRange (s : Symbol) : Except BuildFailure Symbol :=
  if s.range.Valid then .ok s
  else match SymbolRange.read s.range.toValue with
    | .refused issues => .error (.invalid "SymbolRange" issues)
    | .ok _ => .error (.invalid "SymbolRange" [])

def build (x : Extraction) (cache : AccessCache) (i : Nat) :
    Logged (Except BuildFailure (Option Symbol) × AccessCache) :=
  match x.plan.kind (x.tree.kind i) with
  | some text => pure (.error (.fault text), cache)
  | none =>
    match x.tree.declaration? i with
    | none => pure (.ok none, cache)
    | some d => do
      let (s, cache) ← x.symbolOf cache i d
      pure ((onValidRange s).map some, cache)

def skipped (x : Extraction) (i : Nat) (e : BuildFailure) : Logged Unit :=
  let n := x.tree.node i
  Logged.warning loggerName s!"Skipping {n.kind} at line {n.startLine}: {e.message}"
    [("node_kind", Value.ofString n.kind), ("start_line", .int n.startLine)]

def definitions (x : Extraction) : AccessCache → List Nat → Logged (List Symbol)
  | _, [] => pure []
  | cache, i :: rest => do
    let (built, cache) ← x.build cache i
    match built with
    | .error e => do
      x.skipped i e
      definitions x cache rest
    | .ok none => definitions x cache rest
    | .ok (some s) => do
      let symbols ← definitions x cache rest
      pure (s :: symbols)

end Extraction

def extractFrom (plan : FaultPlan) (t : Tree) (lines : List Text) (root : Nat) :
    Logged (List Symbol) :=
  match collectUsages plan t root with
  | .ok usages => Extraction.definitions ⟨plan, t, lines, usages⟩ [] (t.walk root)
  | .error e => do
    let n := t.node root
    Logged.warning Extraction.loggerName
      s!"Symbol extraction failed for cpp subtree: {e.message}"
      [("node_kind", Value.ofString n.kind), ("start_line", .int n.startLine)]
    pure []

def extractWith (plan : FaultPlan) (t : Tree) (root : Nat) : Logged (List Symbol) :=
  extractFrom plan t t.lines root

def extract (t : Tree) (root : Nat) : Logged (List Symbol) := extractWith .none t root

/-- The symbols of a whole tree; a tree without nodes has none. -/
def extractAll (plan : FaultPlan) (t : Tree) : Logged (List Symbol) :=
  match t.root? with
  | some root => extractWith plan t root
  | none => pure []

end SourceChunking
