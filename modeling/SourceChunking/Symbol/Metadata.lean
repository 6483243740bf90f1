import SourceChunking.Symbol.Basic
import SourceChunking.Symbol.Comment
import SourceChunking.Symbol.Declarator
import SourceChunking.Text.Word

/-! # Reading the parts of a declaration

One function for each piece of metadata. They only look at the tree, and none of
them depends on another.
-/
namespace SourceChunking

def returnTypeKinds : List String :=
  ["primitive_type", "type_identifier", "qualified_identifier", "template_type",
    "sized_type_specifier", "placeholder_type_specifier"]

def baseClassKinds : List String := ["type_identifier", "qualified_identifier", "template_type"]

def parameterKinds : List String := ["parameter_declaration", "optional_parameter_declaration"]

def parentKinds : List String :=
  ["class_specifier", "struct_specifier", "union_specifier", "namespace_definition"]

def unnamedParameter : Text := Text.ofString "unnamed"

namespace Tree

/-- The comment above a definition, given the lines of the source; that of a template
stands above the template. -/
def documentation (t : Tree) (lines : List Text) (i : Nat) : Option Text :=
  let anchor := match t.parent? i with
    | some p => if t.kind p = "template_declaration" then p else i
    | none => i
  documentationAbove lines (t.node anchor).start.row

/-- The declaration up to its body or initialiser list, on one line. -/
def signature (t : Tree) (i : Nat) : Text :=
  let stop := (t.firstChildOfKind i ["field_initializer_list"]).or (t.childByField i "body")
  let stopByte := match stop with
    | some s => (t.node s).startByte
    | none => (t.node i).endByte
  let onOneLine := Text.squeeze (t.slice (t.node i).startByte stopByte)
  Text.trimEnd (Text.trimEndWhere (· == ';') onOneLine)

def qualifiedType (t : Tree) (i typeNode : Nat) : Text :=
  let qualifiers := (t.children i).filter fun j =>
    t.kind j == "type_qualifier" && (t.node j).endByte ≤ (t.node typeNode).startByte
  List.intercalate [' '] (qualifiers.map t.text ++ [t.text typeNode])

def returnType (t : Tree) (i : Nat) : Option Text :=
  match t.childByField i "type" with
  | some typeNode =>
    if returnTypeKinds.contains (t.kind typeNode) then
      some (t.qualifiedType i typeNode ++ (t.unwrapDeclarator (t.childByField i "declarator")).2)
    else none
  | none => none

def nameOrUnnamed (name : Option Text) : Text :=
  match name with
  | some n => if n.isEmpty then unnamedParameter else n
  | none => unnamedParameter

/-- One parameter. A name that stands inside its type is cut out of it. -/
def parameter (t : Tree) (i : Nat) : Parameter :=
  let (inner, marks) := t.unwrapDeclarator (t.childByField i "declarator")
  let (inner, nested) := t.pastNesting t.size inner false
  let name := (t.resolveName inner).map (·.text t)
  if nested then
    let type := match name, inner with
      | some _, some d =>
        t.slice (t.node i).startByte (t.node d).startByte ++
          t.slice (t.node d).endByte (t.node i).endByte
      | _, _ => t.text i
    ⟨nameOrUnnamed name, some (Text.squeeze type)⟩
  else
    ⟨nameOrUnnamed name, (t.childByField i "type").map fun ty => t.qualifiedType i ty ++ marks⟩

/-- Whether a parameter is the lone `void` of an empty list. -/
def isVoid (t : Tree) (i : Nat) : Bool :=
  (t.childByField i "declarator").isNone &&
    (t.childByField i "type").any fun ty => t.text ty == Text.ofString "void"

def parameters (t : Tree) (declarator : Nat) : List Parameter :=
  match t.childByField declarator "parameters" with
  | none => []
  | some ps =>
    let declarations := (t.namedChildren ps).filter fun j => parameterKinds.contains (t.kind j)
    match declarations with
    | [only] => if t.isVoid only then [] else [t.parameter only]
    | several => several.map t.parameter

def isConstFunction (t : Tree) (declarator : Nat) : Bool :=
  let start := match t.childByField declarator "parameters" with
    | some ps => (t.node ps).endByte
    | none => (t.node declarator).startByte
  Text.hasWord (Text.ofString "const") (t.slice start (t.node declarator).endByte)

def baseClasses (t : Tree) (i : Nat) : List Text :=
  match t.firstChildOfKind i ["base_class_clause"] with
  | none => []
  | some clause =>
    ((t.namedChildren clause).filter fun j => baseClassKinds.contains (t.kind j)).map t.text

def parentName? (t : Tree) (a : Nat) : Option Text :=
  if parentKinds.contains (t.kind a) then
    match t.childByField a "name" with
    | none => none
    | some n =>
      let name :=
        if t.kind a = "namespace_definition" then some (Text.trim (t.text n))
        else (t.resolveName (some n)).map (·.text t)
      name.filter fun name => !name.isEmpty
  else none

/-- The nearest enclosing name, or else the qualifier of the declared name. -/
def parentSymbol (t : Tree) (i : Nat) (qualifier : Option Text) : Option Text :=
  ((t.ancestors i).findSome? t.parentName?).or qualifier

end Tree
end SourceChunking
