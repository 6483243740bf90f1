/-! # Source text

A text is the list of its code points, so lengths and offsets count code points.
Half of a surrogate pair may stand in a text by itself, where it is a code point
like any other. Lines are divided at newlines only; no other character ends a line.
Blank characters are those that trimming and word division remove.
-/
namespace SourceChunking

/-- A character, or a surrogate without its other half. -/
inductive CodePoint where
  | scalar (c : Char)
  | surrogate (n : Fin 0x800)
deriving Repr, DecidableEq

namespace CodePoint

instance : Coe Char CodePoint := ⟨scalar⟩

def toNat : CodePoint → Nat
  | scalar c => c.toNat
  | surrogate n => 0xd800 + n

def satisfies (p : Char → Bool) : CodePoint → Bool
  | scalar c => p c
  | surrogate _ => false

def isSurrogate : CodePoint → Bool
  | scalar _ => false
  | surrogate _ => true

/-- Changes a character and leaves a surrogate alone. -/
def map (f : Char → Char) : CodePoint → CodePoint
  | scalar c => f c
  | surrogate n => surrogate n

end CodePoint

abbrev Text := List CodePoint

namespace Text

def ofString (s : String) : Text := s.toList.map .scalar

instance : Coe String Text := ⟨ofString⟩

/-- The last `width` lower-case hexadecimal digits of a number. -/
def hexDigits (width n : Nat) : List Char :=
  (List.range width).reverse.map fun i => Nat.digitChar (n / Nat.pow 16 i % 16)

def unitEscape (n : Nat) : List Char := '\\' :: 'u' :: hexDigits 4 n

/-- The text as a string for people. A surrogate, which no string can hold, is shown
as an escape. -/
def shown (t : Text) : String :=
  String.ofList (t.flatMap fun
    | .scalar c => [c]
    | .surrogate n => unitEscape (CodePoint.surrogate n).toNat)

def isBlank (c : CodePoint) : Bool :=
  let n := c.toNat
  (9 ≤ n && n ≤ 13) || (28 ≤ n && n ≤ 32) || n == 0x85 || n == 0xa0 || n == 0x1680 ||
    (0x2000 ≤ n && n ≤ 0x200a) || n == 0x2028 || n == 0x2029 || n == 0x202f || n == 0x205f ||
    n == 0x3000

def allBlank (t : Text) : Bool := t.all isBlank

def trimStart (t : Text) : Text := t.dropWhile isBlank

def trimEndWhere {α : Type} (p : α → Bool) (t : List α) : List α :=
  (t.reverse.dropWhile p).reverse

def trimEnd (t : Text) : Text := trimEndWhere isBlank t

def trim (t : Text) : Text := trimEnd (trimStart t)

/-- Maximal runs of characters that are not blank. -/
def words (t : Text) : List Text := (t.splitOnP isBlank).filter fun w => !w.isEmpty

def squeeze (t : Text) : Text := List.intercalate [' '] (words t)

/-- The parts between newlines: one more than there are newlines. -/
def lines (t : Text) : List Text := t.splitOn '\n'

def unlines (ls : List Text) : Text := List.intercalate ['\n'] ls

def newlines (t : Text) : Nat := t.count (.scalar '\n')

def endsLine (t : Text) : Bool := t.getLast? == some '\n'

def dropFinalNewline (t : Text) : Text := if endsLine t then t.dropLast else t

/-- Number of lines. A final newline opens no further line, and the empty text
is one empty line. -/
def countLines (t : Text) : Nat :=
  if t.isEmpty then 1
  else max 1 (newlines t + 1 - if endsLine t then 1 else 0)

def offset? (piece : Text) : Text → Option Nat
  | [] => if piece.isEmpty then some 0 else none
  | c :: rest =>
    if piece.isPrefixOf (c :: rest) then some 0 else (offset? piece rest).map (· + 1)

def afterLast? (mark : Text) : Text → Option Text
  | [] => none
  | c :: rest =>
    match afterLast? mark rest with
    | some tail => some tail
    | none => if mark.isPrefixOf (c :: rest) then some ((c :: rest).drop mark.length) else none

def takeLast (n : Nat) (t : Text) : Text := t.drop (t.length - n)

/-- A number with zeros in front of it, up to a width. -/
def zeroPadded (width n : Nat) : String :=
  String.ofList (List.replicate (width - (toString n).length) '0') ++ toString n

/-- Order by code point; the beginning of a text comes before the text. -/
def precedes : Text → Text → Bool
  | [], _ => true
  | _ :: _, [] => false
  | c :: s, d :: t => c.toNat < d.toNat || (c == d && precedes s t)

def inRanges (ranges : List (Nat × Nat)) (n : Nat) : Bool :=
  ranges.any fun r => r.1 ≤ n && n ≤ r.2

end Text
end SourceChunking
