import SourceChunking.Separator.Table

/-! # Dividing text at separators

A text is cut at the coarsest separator that occurs in it. Pieces below the size
limit are put together again as long as they fit; a larger piece is divided further
at the separators that are left. The parts handed out are trimmed, except those
that no separator can divide.
-/
namespace SourceChunking

/-- Joins neighbours while their total length stays within the limit. The pieces of
the group at hand are held latest first, together with their length. -/
def joinWithin (size : Nat) (length : Nat) (group : List Text) : List Text → List Text
  | [] => [group.reverse.flatten]
  | p :: rest =>
    if size < length + p.length then group.reverse.flatten :: joinWithin size p.length [p] rest
    else joinWithin size (length + p.length) (p :: group) rest

def mergePieces (size : Nat) (pieces : List Text) : List Text :=
  ((joinWithin size 0 [] pieces).map Text.trim).filter fun p => !p.isEmpty

/-- Merges the small pieces between large ones and divides the large ones. The small
pieces at hand are held latest first. -/
def assemble (size : Nat) (further : Text → List Text) (small : List Text) :
    List Text → List Text
  | [] => mergePieces size small.reverse
  | p :: rest =>
    if p.length < size then assemble size further (p :: small) rest
    else mergePieces size small.reverse ++ further p ++ assemble size further [] rest

def divide (size : Nat) : List Separator → Text → List Text
  | [], t => assemble size (fun p => [p]) [] [t]
  | .characters :: _, t => assemble size (fun p => [p]) [] (Separator.characters.cut t)
  | .pattern choices :: rest, t =>
    if Separator.occursIn choices t then
      assemble size (if rest.isEmpty then fun p => [p] else divide size rest) []
        ((Separator.pattern choices).cut t)
    else divide size rest t

namespace TextSplitter

def atSeparators (size : Int) (separators : List Separator) : Division := fun t =>
  .ok (divide size.toNat separators t)

/-- The splitter that divides at the separators of a dialect, or at the general ones.
A dialect without a list and a bad size are bad values. -/
def recursive : TextSplitter where
  forDialect d size :=
    match d.separators? with
    | some separators => if 0 < size then .ok (atSeparators size separators) else .error .badValue
    | none => .error .badValue
  general size :=
    if 0 < size then .ok (atSeparators size Dialect.general)
    else .error s!"chunk_size must be > 0, got {size}"

end TextSplitter
end SourceChunking
