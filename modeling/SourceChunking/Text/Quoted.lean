import SourceChunking.Text.Printable

/-! # Quoted texts

A text inside a message is shown between quotes: single quotes, unless the text
holds a single quote and no double quote. The quote in use, the backslash and
characters that cannot be printed are escaped.
-/
namespace SourceChunking.Text

def quoteFor (t : Text) : Char :=
  if t.contains (.scalar '\'') && !t.contains (.scalar '"') then '"' else '\''

def quotedChar (quote c : Char) : List Char :=
  if c == quote || c == '\\' then ['\\', c]
  else if c == '\n' then ['\\', 'n']
  else if c == '\r' then ['\\', 'r']
  else if c == '\t' then ['\\', 't']
  else if isPrintable c then [c]
  else if c.toNat < 0x100 then '\\' :: 'x' :: hexDigits 2 c.toNat
  else if c.toNat < 0x10000 then unitEscape c.toNat
  else '\\' :: 'U' :: hexDigits 8 c.toNat

def quotedPoint (quote : Char) : CodePoint → List Char
  | .scalar c => quotedChar quote c
  | .surrogate n => unitEscape (CodePoint.surrogate n).toNat

def quoted (t : Text) : String :=
  let quote := quoteFor t
  String.ofList (quote :: t.flatMap (quotedPoint quote) ++ [quote])

/-- A string between quotes, as messages show it. -/
def quotedString (s : String) : String := quoted (ofString s)

end SourceChunking.Text
