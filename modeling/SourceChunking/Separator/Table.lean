import SourceChunking.Separator.Dialect
import SourceChunking.Separator.Pattern

/-! # Separators of each dialect

Texts are divided at separators, coarse ones before fine ones. Most dialects begin with the
words that open a construct at the start of a line and go on with blank lines, lines,
blanks and characters.
-/
namespace SourceChunking

namespace Dialect

def general : List Separator :=
  [.literal "\n\n", .literal "\n", .literal " ", .characters]

/-- A word that opens a line, with the newline before it and the blank after it. -/
def opener (word : String) : Separator := .literal ("\n" ++ word ++ " ")

def afterOpeners (words : List String) : List Separator := words.map opener ++ general

/-- A heading of at least `least` marks on a line of its own. -/
def rule (mark : Char) (least : Nat) : Separator :=
  .sequence (PatternItem.literal "\n" ++
    List.replicate (least - 1) (.one (.exactly mark)) ++ [PatternItem.atLeastOne mark] ++
    PatternItem.literal "\n")

/-- A phrase that opens a line and is followed by some character. -/
def phrase (words : String) : Separator :=
  .sequence (PatternItem.literal ("\n" ++ words) ++ [PatternItem.anyCharacter])

def command (name : String) : Separator := .literal ("\n\\" ++ name ++ "\x7b")

def environment (name : String) : Separator := .literal ("\n\\begin\x7b" ++ name ++ "\x7d")

def tag (name : String) : Separator := .literal ("<" ++ name)

def headings : Separator :=
  .sequence (PatternItem.literal "\n" ++ [.many (.exactly '#') 1 (some 6)] ++
    PatternItem.literal " ")

def directive : Separator :=
  .sequence (PatternItem.literal "\n\n" ++
    [PatternItem.anyCharacter, PatternItem.anyCharacter, PatternItem.anyNumber ' '] ++
    PatternItem.literal "\n\n")

def separators? : Dialect → Option (List Separator)
  | c => some (afterOpeners ["class", "void", "int", "float", "double", "if", "for", "while",
        "switch", "case"])
  | cobol => some (
      ["IDENTIFICATION DIVISION", "ENVIRONMENT DIVISION", "DATA DIVISION", "PROCEDURE DIVISION",
        "WORKING-STORAGE SECTION", "LINKAGE SECTION", "FILE SECTION",
        "INPUT-OUTPUT SECTION"].map phrase ++
      ["OPEN", "CLOSE", "READ", "WRITE", "IF", "ELSE", "MOVE", "PERFORM", "UNTIL", "VARYING",
        "ACCEPT", "DISPLAY"].map opener ++
      [phrase "STOP RUN", .literal "\n", .literal " ", .characters])
  | cpp => some (afterOpeners ["class", "void", "int", "float", "double", "if", "for", "while",
        "switch", "case"])
  | csharp => some (afterOpeners ["interface", "enum", "delegate", "event", "class", "abstract",
        "public", "protected", "private", "static", "return", "if", "continue", "for", "foreach",
        "while", "switch", "break", "case", "else", "try", "throw", "finally", "catch"])
  | elixir => some (afterOpeners ["def", "defp", "defmodule", "defprotocol", "defmacro",
        "defmacrop", "if", "unless", "case", "cond", "with", "for", "do"])
  | go => some (afterOpeners ["func", "var", "const", "type", "if", "for", "switch", "case"])
  | haskell => some (
      ["main ::", "main =", "let", "in", "do", "where", "::", "=", "data", "newtype", "type",
        "module", "import", "qualified", "import qualified", "class", "instance",
        "case"].map opener ++
      [.pattern [PatternItem.literal "\n", PatternItem.literal " "], .literal "\n= \x7b",
        opener ","] ++ general)
  | html => some (
      ["body", "div", "p", "br", "li", "h1", "h2", "h3", "h4", "h5", "h6", "span", "table", "tr",
        "td", "th", "ul", "ol", "header", "footer", "nav", "head", "style", "script", "meta",
        "title"].map tag ++
      [.characters])
  | java => some (afterOpeners ["class", "public", "protected", "private", "static", "if", "for",
        "while", "switch", "case"])
  | javascript => some (afterOpeners ["function", "const", "let", "var", "class", "if", "for",
        "while", "switch", "case", "default"])
  | kotlin => some (afterOpeners ["class", "public", "protected", "private", "internal",
        "companion", "fun", "val", "var", "if", "for", "while", "when", "else"])
  | latex => some (
      ["chapter", "section", "subsection", "subsubsection"].map command ++
      ["enumerate", "itemize", "description", "list", "quote", "quotation", "verse", "verbatim",
        "align"].map environment ++
      [.sequence [.atEnd, .atEnd], .sequence [.atEnd], .literal " ", .characters])
  | lua => some (afterOpeners ["local", "function", "if", "for", "while", "repeat"])
  | markdown => some (
      [headings, .literal "```\n", rule '*' 3, rule '-' 3, rule '_' 3] ++ general)
  | perl => none
  | php => some (afterOpeners ["function", "class", "if", "foreach", "while", "do", "switch",
        "case"])
  | powershell => some (afterOpeners ["function", "param", "if", "foreach", "for", "while",
        "switch", "class", "try", "catch", "finally"])
  | proto => some (afterOpeners ["message", "service", "enum", "option", "import", "syntax"])
  | python => some (afterOpeners ["class", "def", "\tdef"])
  | restructured => some ([rule '=' 1, rule '-' 1, rule '*' 1, directive] ++ general)
  | ruby => some (afterOpeners ["def", "class", "if", "unless", "while", "for", "do", "begin",
        "rescue"])
  | rust => some (afterOpeners ["fn", "const", "let", "if", "while", "for", "loop", "match"])
  | scala => some (afterOpeners ["class", "object", "def", "val", "var", "if", "for", "while",
        "match", "case"])
  | solidity => some (afterOpeners ["pragma", "using", "contract", "interface", "library",
        "constructor", "type", "function", "event", "modifier", "error", "struct", "enum", "if",
        "for", "while", "do while", "assembly"])
  | swift => some (afterOpeners ["func", "class", "struct", "enum", "if", "for", "while", "do",
        "switch", "case"])
  | typescript => some (afterOpeners ["enum", "interface", "namespace", "type", "class",
        "function", "const", "let", "var", "if", "for", "while", "switch", "case", "default"])

end Dialect
end SourceChunking
