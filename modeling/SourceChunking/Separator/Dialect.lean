import SourceChunking.Grammar

/-! # Dialects and text splitters

Texts that are not cut along their syntax are divided by a text splitter. Splitters
are made for a dialect, of which there are more than languages with a grammar, or
for any text. What they are and how they divide is not decided here: they are a
parameter, and each of them may refuse to be made or fail on a text.
-/
namespace SourceChunking

inductive Dialect where
  | c
  | cobol
  | cpp
  | csharp
  | elixir
  | go
  | haskell
  | html
  | java
  | javascript
  | kotlin
  | latex
  | lua
  | markdown
  | perl
  | php
  | powershell
  | proto
  | python
  | restructured
  | ruby
  | rust
  | scala
  | solidity
  | swift
  | typescript
deriving Repr, DecidableEq

namespace Dialect

def name : Dialect → String
  | c => "c"
  | cobol => "cobol"
  | cpp => "cpp"
  | csharp => "csharp"
  | elixir => "elixir"
  | go => "go"
  | haskell => "haskell"
  | html => "html"
  | java => "java"
  | javascript => "js"
  | kotlin => "kotlin"
  | latex => "latex"
  | lua => "lua"
  | markdown => "markdown"
  | perl => "perl"
  | php => "php"
  | powershell => "powershell"
  | proto => "proto"
  | python => "python"
  | restructured => "rst"
  | ruby => "ruby"
  | rust => "rust"
  | scala => "scala"
  | solidity => "sol"
  | swift => "swift"
  | typescript => "ts"

/-- The names by which a dialect is asked for, in lower case. -/
def identifiers : Dialect → List String
  | c => ["c", "h"]
  | cobol => ["cobol"]
  | cpp => ["cpp", "c++", "cc", "cxx", "hpp"]
  | csharp => ["csharp", "cs", "c#"]
  | elixir => ["elixir", "ex"]
  | go => ["go", "golang"]
  | haskell => ["haskell", "hs"]
  | html => ["html"]
  | java => ["java"]
  | javascript => ["javascript", "js", "jsx", "mjs"]
  | kotlin => ["kotlin", "kt"]
  | latex => ["latex", "tex"]
  | lua => ["lua"]
  | markdown => ["markdown", "md"]
  | perl => ["perl", "pl", "pm"]
  | php => ["php"]
  | powershell => ["powershell", "ps1"]
  | proto => ["proto"]
  | python => ["python", "py"]
  | restructured => ["rst"]
  | ruby => ["ruby", "rb"]
  | rust => ["rust", "rs"]
  | scala => ["scala"]
  | solidity => ["sol"]
  | swift => ["swift"]
  | typescript => ["typescript", "ts", "tsx"]

def all : List Dialect :=
  [c, cobol, cpp, csharp, elixir, go, haskell, html, java, javascript,
    kotlin, latex, lua, markdown, perl, php, powershell, proto, python, restructured, ruby, rust,
    scala, solidity, swift, typescript]

def ofIdentifier? (id : Text) : Option Dialect :=
  all.find? fun d => (d.identifiers.map Text.ofString).contains (plainIdentifier id)

end Dialect

/-- What a splitter makes of a text: pieces, or what it says when it fails. -/
abbrev Division := Text → Except String (List Text)

/-- Why there is no splitter for a dialect. Only where a value was bad is the general
one tried in its place. -/
inductive SplitterRefusal where
  | badValue
  | failed (reason : String)
deriving Repr, DecidableEq

structure TextSplitter where
  forDialect : Dialect → Int → Except SplitterRefusal Division
  general : Int → Except String Division

end SourceChunking
