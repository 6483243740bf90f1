import SourceChunking.Tree.Navigation

/-! # Names and declarators

A declared name may stand behind pointers, references, arrays, qualifiers and
template arguments. The functions below go down to it one node at a time; each
step goes to a child, so the number of nodes bounds the descent.
-/
namespace SourceChunking

def nameKinds : List String :=
  ["identifier", "field_identifier", "type_identifier", "namespace_identifier", "operator_name",
    "destructor_name"]

def pointerKinds : List String := ["pointer_declarator", "abstract_pointer_declarator"]

def referenceKinds : List String := ["reference_declarator", "abstract_reference_declarator"]

/-- Declarators that put a name inside the type, as in a function pointer. -/
def nestingKinds : List String :=
  ["function_declarator", "parenthesized_declarator", "array_declarator"]

abbrev scopeMark : Text := [':', ':']

/-- A name node together with the texts of the scopes before it. -/
structure ResolvedName where
  node : Nat
  qualifiers : List Text
deriving Repr, DecidableEq

namespace ResolvedName

def text (t : Tree) (r : ResolvedName) : Text := t.text r.node

def qualifier? (r : ResolvedName) : Option Text :=
  let joined := scopeMark.intercalate r.qualifiers
  if joined.isEmpty then none else some joined

end ResolvedName

namespace Tree

def pastQualifiers (t : Tree) : Nat → Option Nat → List Text → Option Nat × List Text
  | 0, n, qualifiers => (n, qualifiers)
  | _ + 1, none, qualifiers => (none, qualifiers)
  | steps + 1, some i, qualifiers =>
    if t.kind i = "qualified_identifier" then
      let scope := ((t.childByField i "scope").map t.text).toList
      pastQualifiers t steps (t.childByField i "name") (qualifiers ++ scope)
    else (some i, qualifiers)

def pastTemplate (t : Tree) (n : Option Nat) : Option Nat :=
  match n with
  | some i =>
    if t.kind i = "template_type" ∨ t.kind i = "template_function" then t.childByField i "name"
    else some i
  | none => none

def resolveName (t : Tree) (n : Option Nat) : Option ResolvedName :=
  let (n, qualifiers) := t.pastQualifiers t.size n []
  match t.pastTemplate n with
  | some i => if nameKinds.contains (t.kind i) then some ⟨i, qualifiers⟩ else none
  | none => none

/-- What a declarator wraps: its declarator field, or its last named child. -/
def innerDeclarator (t : Tree) (i : Nat) : Option Nat :=
  (t.childByField i "declarator").or (t.namedChildren i).getLast?

def unwrapWithin (t : Tree) : Nat → Option Nat → Text → Option Nat × Text
  | 0, n, marks => (n, marks)
  | _ + 1, none, marks => (none, marks)
  | steps + 1, some i, marks =>
    if pointerKinds.contains (t.kind i) then
      unwrapWithin t steps (t.innerDeclarator i) (marks ++ [.scalar '*'])
    else if referenceKinds.contains (t.kind i) then
      let mark := match t.children i with
        | first :: _ => t.text first
        | [] => [.scalar '&']
      unwrapWithin t steps (t.innerDeclarator i) (marks ++ mark)
    else (some i, marks)

/-- The declarator behind pointers and references, and the marks passed. -/
def unwrapDeclarator (t : Tree) (n : Option Nat) : Option Nat × Text := t.unwrapWithin t.size n []

def pastInitializers (t : Tree) : Nat → Option Nat → Option Nat
  | 0, n => n
  | _ + 1, none => none
  | steps + 1, some i =>
    if t.kind i = "init_declarator" ∨ t.kind i = "array_declarator" then
      pastInitializers t steps (t.unwrapDeclarator (t.childByField i "declarator")).1
    else some i

/-- Goes on through declarators that nest a name, and says whether there were any. -/
def pastNesting (t : Tree) : Nat → Option Nat → Bool → Option Nat × Bool
  | 0, n, nested => (n, nested)
  | _ + 1, none, nested => (none, nested)
  | steps + 1, some i, nested =>
    if nestingKinds.contains (t.kind i) then
      pastNesting t steps (t.unwrapDeclarator (t.innerDeclarator i)).1 true
    else (some i, nested)

end Tree
end SourceChunking
