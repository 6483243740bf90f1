import SourceChunking.Language
import SourceChunking.Log.Record

/-! # Grammars

One grammar is registered for each language: the module and package that hold it,
the names that select it, and the node kinds at which its sources are cut. A
grammar whose module is missing does not resolve; this is reported the first time
its language is asked for.
-/
namespace SourceChunking

structure Grammar where
  language : Language
  moduleName : String
  packageName : String
  loader : String
  aliases : List String
  boundaryKinds : List String
  hasExtractor : Bool
deriving Repr, DecidableEq

namespace Grammar

def javascriptBoundaries : List String :=
  ["arrow_function", "class_declaration", "export_statement", "function_declaration",
    "method_definition"]

def typescriptBoundaries : List String :=
  ["arrow_function", "class_declaration", "export_statement", "function_declaration",
    "interface_declaration", "method_definition", "type_alias_declaration"]

/-- Boundary kinds are listed in alphabetical order. -/
def ofLanguage : Language → Grammar
  | .javascript =>
    ⟨.javascript, "tree_sitter_javascript", "tree-sitter-javascript", "language",
      ["js", "jsx", "mjs", "cjs"], javascriptBoundaries, false⟩
  | .typescript =>
    ⟨.typescript, "tree_sitter_typescript", "tree-sitter-typescript", "language_typescript",
      ["ts", "mts"], typescriptBoundaries, false⟩
  | .tsx =>
    ⟨.tsx, "tree_sitter_typescript", "tree-sitter-typescript", "language_tsx", [],
      typescriptBoundaries, false⟩
  | .python =>
    ⟨.python, "tree_sitter_python", "tree-sitter-python", "language", ["py"],
      ["class_definition", "decorated_definition", "function_definition"], false⟩
  | .java =>
    ⟨.java, "tree_sitter_java", "tree-sitter-java", "language", [],
      ["class_declaration", "constructor_declaration", "enum_declaration",
        "interface_declaration", "method_declaration"], false⟩
  | .cpp =>
    ⟨.cpp, "tree_sitter_cpp", "tree-sitter-cpp", "language",
      ["c++", "cc", "cxx", "c", "h", "hh", "hpp", "hxx"],
      ["class_specifier", "enum_specifier", "function_definition", "namespace_definition",
        "struct_specifier", "template_declaration", "type_definition", "union_specifier"], true⟩
  | .go =>
    ⟨.go, "tree_sitter_go", "tree-sitter-go", "language", ["golang"],
      ["const_declaration", "function_declaration", "method_declaration", "type_declaration",
        "var_declaration"], false⟩
  | .rust =>
    ⟨.rust, "tree_sitter_rust", "tree-sitter-rust", "language", ["rs"],
      ["enum_item", "function_item", "impl_item", "mod_item", "struct_item", "trait_item"], false⟩
  | .csharp =>
    ⟨.csharp, "tree_sitter_c_sharp", "tree-sitter-c-sharp", "language", ["cs", "c#", "c_sharp"],
      ["class_declaration", "enum_declaration", "interface_declaration", "method_declaration",
        "struct_declaration"], false⟩
  | .scala =>
    ⟨.scala, "tree_sitter_scala", "tree-sitter-scala", "language", ["sc"],
      ["class_definition", "function_definition", "object_definition", "trait_definition"], false⟩
  | .perl =>
    ⟨.perl, "tree_sitter_perl", "tree-sitter-perl", "language", ["pl", "pm"],
      ["function_definition", "method_declaration_statement", "package_statement",
        "subroutine_declaration_statement"], false⟩

def all : List Grammar := Language.all.map ofLanguage

def name (g : Grammar) : String := g.language.name

/-- The name as chunks bear it. -/
def title (g : Grammar) : Text := Text.ofString g.name

def identifiers (g : Grammar) : List String := g.language.name :: g.aliases

end Grammar

/-- Names are compared without surrounding blanks and in lower case. -/
def plainIdentifier (id : Text) : Text := Text.lower (Text.trim id)

namespace Language

/-- The language that an identifier or alias names. -/
def ofIdentifier? (id : Text) : Option Language :=
  (Grammar.all.find? fun g =>
    (g.identifiers.map Text.ofString).contains (plainIdentifier id)).map (·.language)

def isSupported (id : Text) : Bool := (ofIdentifier? id).isSome

def hasSymbols (id : Text) : Bool :=
  (ofIdentifier? id).any fun l => (Grammar.ofLanguage l).hasExtractor

/-- The name under which chunks of a language are filed: the registered name, or
the identifier itself. -/
def filedAs (id : Text) : Text := ((ofIdentifier? id).map fun l => Text.ofString l.name).getD id

end Language

/-- Which grammar modules cannot be loaded, and for which languages that has been
reported. -/
structure Installation where
  missing : List String
  reported : List Language
deriving Repr, DecidableEq

namespace Installation

def complete : Installation := ⟨[], []⟩

def absence (g : Grammar) : Record where
  level := Level.warning
  source := "codechunker.parsers.grammars"
  message := g.moduleName ++ " is required for " ++ g.name ++
    " parsing. Install with: pip install " ++ g.packageName
  context := []

/-- The module that every grammar needs besides its own. -/
def commonModule : String := "tree_sitter"

def lacks (inst : Installation) (g : Grammar) : Bool :=
  inst.missing.contains commonModule || inst.missing.contains g.moduleName

/-- The grammar of an identifier, if it is registered and can be loaded. -/
def resolve (inst : Installation) (id : Text) : Logged (Option Grammar × Installation) :=
  match Language.ofIdentifier? id with
  | none => pure (none, inst)
  | some l =>
    if inst.lacks (Grammar.ofLanguage l) then
      if inst.reported.contains l then pure (none, inst)
      else do
        Logged.log (absence (Grammar.ofLanguage l))
        pure (none, { inst with reported := l :: inst.reported })
    else pure (some (Grammar.ofLanguage l), inst)

end Installation
end SourceChunking
