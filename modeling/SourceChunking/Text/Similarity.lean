import SourceChunking.Text.Basic

/-! # Similar names

Two names are compared by the characters that they share in blocks: the longest
block common to both, the leftmost of several, and then the blocks before and after
it in the same way. Names are close if at least three fifths of the characters of
both lie in such blocks.
-/
namespace SourceChunking.Text

def commonLength : Text → Text → Nat
  | c :: s, d :: t => if c = d then commonLength s t + 1 else 0
  | _, _ => 0

structure Block where
  left : Nat
  right : Nat
  length : Nat
deriving Repr, DecidableEq

def Block.best (bs : List Block) : Block :=
  bs.foldl (fun best b => if best.length < b.length then b else best) ⟨0, 0, 0⟩

def blocks (s t : Text) : List Block :=
  (List.range s.length).flatMap fun i =>
    (List.range t.length).map fun j => ⟨i, j, commonLength (s.drop i) (t.drop j)⟩

/-- The characters in common blocks. Each block uses up a character of the first
text, so its length bounds the depth of the search. -/
def sharedWithin : Nat → Text → Text → Nat
  | 0, _, _ => 0
  | depth + 1, s, t =>
    let b := Block.best (blocks s t)
    if b.length = 0 then 0
    else
      b.length + sharedWithin depth (s.take b.left) (t.take b.right) +
        sharedWithin depth (s.drop (b.left + b.length)) (t.drop (b.right + b.length))

def shared (s t : Text) : Nat := sharedWithin s.length s t

/-- Texts of very different lengths cannot be close, whatever they share. -/
def isClose (s t : Text) : Bool :=
  3 * (s.length + t.length) ≤ 10 * min s.length t.length &&
    3 * (s.length + t.length) ≤ 10 * shared s t

/-- Whether the first of two names is more similar to a word; between equally
similar ones the later in the alphabet wins. -/
def isCloser (word : Text) (a b : String) : Bool :=
  let left := shared (ofString a) word * (b.length + word.length)
  let right := shared (ofString b) word * (a.length + word.length)
  right < left || (left == right && precedes (ofString b) (ofString a))

/-- Up to three names that are close to a word, in alphabetical order. -/
def suggestions (word : String) (names : List String) : List String :=
  let close := names.filter fun n => isClose (ofString n) (ofString word)
  ((close.mergeSort (isCloser (ofString word))).take 3).mergeSort fun a b =>
    precedes (ofString a) (ofString b)

end SourceChunking.Text
