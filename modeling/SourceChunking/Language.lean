import SourceChunking.Text.Lowercase

/-! # Languages

The languages that are cut along their syntax, and the file extensions by which
they are recognised. Every other language is divided as plain text.
-/
namespace SourceChunking

inductive Language where
  | javascript
  | typescript
  | tsx
  | python
  | java
  | cpp
  | go
  | rust
  | csharp
  | scala
  | perl
deriving Repr, DecidableEq

namespace Language

def name : Language → String
  | javascript => "javascript"
  | typescript => "typescript"
  | tsx => "tsx"
  | python => "python"
  | java => "java"
  | cpp => "cpp"
  | go => "go"
  | rust => "rust"
  | csharp => "csharp"
  | scala => "scala"
  | perl => "perl"

def all : List Language :=
  [javascript, typescript, tsx, python, java, cpp, go, rust, csharp, scala, perl]

/-- Extensions in lower case, with their dot. -/
def extensions : Language → List String
  | javascript => [".js", ".jsx", ".mjs", ".cjs"]
  | typescript => [".ts", ".mts"]
  | tsx => [".tsx"]
  | python => [".py"]
  | java => [".java"]
  | cpp => [".c", ".h", ".cc", ".cpp", ".cxx", ".c++", ".hh", ".hpp", ".hxx"]
  | go => [".go"]
  | rust => [".rs"]
  | csharp => [".cs"]
  | scala => [".scala", ".sc"]
  | perl => [".pl", ".pm", ".thpl"]

/-- The language of files with this extension, in any case. -/
def ofExtension? (extension : Text) : Option Language :=
  all.find? fun l => (l.extensions.map Text.ofString).contains (Text.lower extension)

end Language
end SourceChunking
