import SourceChunking.Fragment.Basic
import SourceChunking.Span

/-! # Covering the lines between fragments

Runs of lines that no fragment spans are taken in one at a time, in line order. A
run with something on it becomes a fragment of its own. A blank run joins the
fragment before it, or the one after it when it opens the text.
-/
namespace SourceChunking

/-- Fragments placed so far, the latest first; a blank run that opened the text
and waits for its fragment; the first line not yet accounted for. -/
structure Coverage where
  placed : List Fragment
  opening : Option Text
  next : Int
deriving Repr, DecidableEq

namespace Coverage

def empty : Coverage := ⟨[], none, 1⟩

/-- Extends a fragment by the blank lines up to `stop`. -/
def absorb (f : Fragment) (gap : Text) (stop : Int) : Fragment :=
  { f with
    content := f.content ++ (if Text.endsLine f.content then [] else [.scalar '\n']) ++ gap
    endLine := stop }

def takeGap (lines : List Text) (start stop : Int) (c : Coverage) : Coverage :=
  let gap := Text.unlines (span lines (start - 1) stop)
  if !Text.allBlank gap then { c with placed := Fragment.plain gap start stop :: c.placed }
  else
    match c.placed with
    | previous :: rest => { c with placed := absorb previous gap stop :: rest }
    | [] => { c with opening := some gap }

def prepend (opening : Option Text) (f : Fragment) : Fragment :=
  match opening with
  | some gap => { f with content := gap ++ [.scalar '\n'] ++ f.content, startLine := 1 }
  | none => f

def place (lines : List Text) (c : Coverage) (f : Fragment) : Coverage :=
  let c := if c.next < f.startLine then takeGap lines c.next (f.startLine - 1) c else c
  ⟨prepend c.opening f :: c.placed, none, max c.next (f.endLine + 1)⟩

def finish (lines : List Text) (lineCount : Int) (c : Coverage) : List Fragment :=
  (if c.next ≤ lineCount then takeGap lines c.next lineCount c else c).placed.reverse

end Coverage

/-- Covers the lines of a text that none of its fragments spans. -/
def fillGaps (fragments : List Fragment) (source : Text) : List Fragment :=
  if fragments.isEmpty then [Fragment.whole source]
  else
    let lines := Text.lines source
    ((Fragment.sortByLines fragments).foldl (Coverage.place lines) Coverage.empty).finish lines
      (Text.countLines source)

end SourceChunking
