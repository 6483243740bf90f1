import SourceChunking.Text.Basic

/-! # Documentation comments

The comment above a definition is read from the lines directly above it, at most
five of them. A line comment counts, and a block comment that is opened and closed
on its line; any other line ends the comment.
-/
namespace SourceChunking

def lookback : Nat := 5

abbrev lineMark : Text := ['/', '/']

abbrev blockOpening : Text := ['/', '*']

abbrev blockClosing : Text := ['*', '/']

def commentText (line : Text) : Option Text :=
  if lineMark.isPrefixOf line then some (Text.trim (line.dropWhile (· == '/')))
  else if blockOpening.isPrefixOf line then
    (Text.offset? blockClosing (line.drop 2)).map fun stop =>
      Text.trim ((Text.trim ((line.drop 2).take stop)).dropWhile (· == '*'))
  else none

def rowsAbove (row : Int) : List Nat :=
  ((List.range lookback).map fun k : Nat => row - 1 - (k : Int)).filterMap fun r =>
    if 0 ≤ r then some r.toNat else none

/-- What the lines above a row hold as comments, nearest first, up to the first
line that is no comment. Rows below the last line are passed over. -/
def commentsAbove (lines : List Text) (row : Int) : List Text :=
  let above := (rowsAbove row).filterMap fun r => lines[r]?
  ((above.map fun line => commentText (Text.trim line)).takeWhile Option.isSome).filterMap id

/-- The comment above a row, top to bottom, with a space between its lines. -/
def documentationAbove (lines : List Text) (row : Int) : Option Text :=
  let texts := (commentsAbove lines row).filter fun t => !t.isEmpty
  if texts.isEmpty then none else some (List.intercalate [' '] texts.reverse)

end SourceChunking
