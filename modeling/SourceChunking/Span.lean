/-! # Spans with signed ends

A span of a list is given by two ends. An end below zero counts from the end of
the list, and an end outside the list is moved to its border; a span whose ends
are crossed is empty.
-/
namespace SourceChunking

/-- How far from the front of a list a signed end lies. -/
def signedPlace {α : Type} (xs : List α) (i : Int) : Nat :=
  if i < 0 then (i + xs.length).toNat else i.toNat

def span {α : Type} (xs : List α) (a b : Int) : List α :=
  (xs.drop (signedPlace xs a)).take (signedPlace xs b - signedPlace xs a)

/-- The index that a signed position names, if there is such an element. -/
def signedIndex? (length : Nat) (i : Int) : Option Nat :=
  let j := if i < 0 then i + length else i
  if 0 ≤ j ∧ j < length then some j.toNat else none

end SourceChunking
