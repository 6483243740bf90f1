import SourceChunking.Text.Basic

/-! # Separators

A separator is a pattern at whose occurrences a text is cut. Patterns are a few
sequences to choose from, each made of fixed characters, characters repeated
greedily, and the end of the text. Cutting keeps all characters: a piece begins
where an occurrence begins.
-/
namespace SourceChunking

inductive CharClass where
  | exactly (c : Char)
  | notNewline
deriving Repr, DecidableEq

def CharClass.accepts : CharClass → CodePoint → Bool
  | .exactly c, d => d == c
  | .notNewline, d => d != '\n'

inductive PatternItem where
  | one (k : CharClass)
  | many (k : CharClass) (least : Nat) (most : Option Nat)
  | atEnd
deriving Repr, DecidableEq

namespace PatternItem

/-- How many characters at the front of a text a repetition may take. -/
def longestRun (k : CharClass) (most : Option Nat) (t : Text) : Nat :=
  let run := (t.takeWhile k.accepts).length
  match most with
  | some m => min m run
  | none => run

/-- The end of a text lies behind its last character or before a final newline. -/
def isAtEnd (t : Text) : Bool := t.isEmpty || t == [.scalar '\n']

/-- The length of a sequence matched at the front of a text; a repetition tries its
longest run first. -/
def matchLength : List PatternItem → Text → Option Nat
  | [], _ => some 0
  | .one _ :: _, [] => none
  | .one k :: rest, c :: t => if k.accepts c then (matchLength rest t).map (· + 1) else none
  | .many k least most :: rest, t =>
    let longest := longestRun k most t
    (List.range (longest + 1 - least)).findSome? fun fewer =>
      (matchLength rest (t.drop (longest - fewer))).map (· + (longest - fewer))
  | .atEnd :: rest, t => if isAtEnd t then matchLength rest t else none

def literal (s : String) : List PatternItem := s.toList.map fun c => .one (.exactly c)

def atLeastOne (c : Char) : PatternItem := .many (.exactly c) 1 none

def anyNumber (c : Char) : PatternItem := .many (.exactly c) 0 none

def anyCharacter : PatternItem := .one .notNewline

end PatternItem

inductive Separator where
  | pattern (choices : List (List PatternItem))
  | characters
deriving Repr, DecidableEq

namespace Separator

def literal (s : String) : Separator := .pattern [PatternItem.literal s]

def sequence (items : List PatternItem) : Separator := .pattern [items]

/-- The length of an occurrence at the front of a text. -/
def lengthAt (choices : List (List PatternItem)) (t : Text) : Option Nat :=
  choices.findSome? fun items => PatternItem.matchLength items t

/-- Whether a pattern occurs anywhere in a text, its end included. -/
def occursIn (choices : List (List PatternItem)) : Text → Bool
  | [] => (lengthAt choices []).isSome
  | c :: t => (lengthAt choices (c :: t)).isSome || occursIn choices t

/-- Cuts a text before each occurrence. The first piece is what comes before all of
them. `skip` counts characters that belong to the occurrence just met. -/
def cutFrom (choices : List (List PatternItem)) : Nat → Text → List Text
  | _, [] => [[]]
  | skip + 1, c :: t => (cutFrom choices skip t).modifyHead (c :: ·)
  | 0, c :: t =>
    match lengthAt choices (c :: t) with
    | some n => [] :: (cutFrom choices (n - 1) t).modifyHead (c :: ·)
    | none => (cutFrom choices 0 t).modifyHead (c :: ·)

/-- The pieces of a text that are not empty. -/
def cut : Separator → Text → List Text
  | .pattern choices, t => (cutFrom choices 0 t).filter fun p => !p.isEmpty
  | .characters, t => t.map fun c => [c]

end Separator
end SourceChunking
