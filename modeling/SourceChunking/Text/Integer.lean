import SourceChunking.Text.Basic

/-! # Integers in text

Command arguments take the decimal digits of any script, with single underscores
between them. Field values take the ten ASCII digits in a plain form; a text in any
other form is tidied once, and what comes out is read as a plain form again. No
reader takes more than 4300 digits.
-/
namespace SourceChunking.Text

/-- The zeros of the scripts beyond ASCII that have decimal digits; the digits of
a script follow its zero. -/
def scriptZeros : List Nat :=
  [1632, 1776, 1984, 2406, 2534, 2662, 2790, 2918, 3046, 3174, 3302, 3430, 3558, 3664, 3792, 3872,
   4160, 4240, 6112, 6160, 6470, 6608, 6784, 6800, 6992, 7088, 7232, 7248, 42528, 43216, 43264,
   43472, 43504, 43600, 44016, 65296, 66720, 68912, 69734, 69872, 69942, 70096, 70384, 70736, 70864,
   71248, 71360, 71472, 71904, 72016, 72784, 73040, 73120, 92768, 92864, 93008, 120782, 120792,
   120802, 120812, 120822, 123200, 123632, 125264, 130032]

def digitLimit : Nat := 4300

def asciiDigit? (c : CodePoint) : Option Nat :=
  if c.satisfies Char.isDigit then some (c.toNat - 48) else none

def scriptDigit? (c : CodePoint) : Option Nat :=
  if c.toNat < 128 then asciiDigit? c
  else (scriptZeros.find? fun z => z ≤ c.toNat && c.toNat < z + 10).map (c.toNat - ·)

/-- Reads digits with single underscores between them, continuing a value. -/
def digitsFrom (value : Nat) : Text → Option Nat
  | [] => some value
  | .scalar '_' :: c :: rest => do digitsFrom (value * 10 + (← scriptDigit? c)) rest
  | c :: rest => do digitsFrom (value * 10 + (← scriptDigit? c)) rest

def digits : Text → Option Nat
  | [] => none
  | c :: rest => do digitsFrom (← scriptDigit? c) rest

def boundedDigits (t : Text) : Option Nat :=
  if digitLimit < (t.filter (· != .scalar '_')).length then none else digits t

/-- Blanks other than the four information separators. -/
def isMargin (c : CodePoint) : Bool := isBlank c && !(28 ≤ c.toNat && c.toNat ≤ 31)

def withoutMargins (t : Text) : Text := trimEndWhere isMargin (t.dropWhile isMargin)

def integer? (t : Text) : Option Int :=
  match withoutMargins t with
  | .scalar '-' :: rest => (boundedDigits rest).map fun n => -(n : Int)
  | .scalar '+' :: rest => (boundedDigits rest).map fun n => (n : Int)
  | rest => (boundedDigits rest).map fun n => (n : Int)

inductive IntegerProblem where
  | oversized
  | unreadable
deriving Repr, DecidableEq

def isNonzeroDigit (c : CodePoint) : Bool := c.satisfies Char.isDigit && c != '0'

def valueOf (t : Text) : Nat := t.foldl (fun n c => n * 10 + (c.toNat - 48)) 0

/-- Digits that start with no zero, or a single zero. -/
def isPlain : Text → Bool
  | [] => false
  | c :: rest =>
    if c = '0' then rest.isEmpty
    else c.satisfies Char.isDigit && rest.all (CodePoint.satisfies Char.isDigit)

def splitMinus : Text → Text × Text
  | .scalar '-' :: rest => (['-'], rest)
  | t => ([], t)

def isOversized (t : Text) : Bool :=
  let rest := (splitMinus t).2
  rest.head?.any isNonzeroDigit &&
    digitLimit < (rest.takeWhile (CodePoint.satisfies Char.isDigit)).length

def plainInteger (t : Text) : Except IntegerProblem Int :=
  let (minus, rest) := splitMinus t
  if isOversized t then .error .oversized
  else if !isPlain rest then .error .unreadable
  else .ok (if minus.isEmpty then valueOf rest else -(valueOf rest : Int))

/-- Drops zeros and underscores up to the number proper, given the character before.
In front of a point, and at the end, that character stays. -/
def afterZeros (before : CodePoint) : Text → Option Text
  | [] => some [before]
  | c :: rest =>
    if c = '0' ∨ c = '_' then afterZeros c rest
    else if c = '-' ∨ isNonzeroDigit c then some (c :: rest)
    else if c = '.' then some (before :: c :: rest)
    else none

def withoutLeadingZeros : Text → Option Text
  | [] => none
  | c :: rest =>
    if c = '0' then afterZeros c rest
    else if c.satisfies Char.isDigit then some (c :: rest)
    else none

def dropZeroFraction (t : Text) : Text :=
  let fraction := t.dropWhile (· != .scalar '.')
  if 2 ≤ fraction.length && (fraction.drop 1).all (· == .scalar '0') then
    t.takeWhile (· != .scalar '.')
  else t

/-- Removes underscores, if each of them stands alone between other characters. -/
def dropUnderscores (t : Text) : Text :=
  if t.head? == some (.scalar '_') || t.getLast? == some (.scalar '_') ||
      (offset? ['_', '_'] t).isSome then t
  else t.filter (· != .scalar '_')

/-- What is left of a text without margins, plus sign, leading zeros, a fraction of
zeros and underscores. -/
def tidied (t : Text) : Option Text :=
  let (minus, rest) := splitMinus (withoutMargins t)
  let rest := if minus.isEmpty && rest.head? == some (.scalar '+') then rest.drop 1 else rest
  (withoutLeadingZeros rest).map fun t => minus ++ dropUnderscores (dropZeroFraction t)

def strictInteger (t : Text) : Except IntegerProblem Int :=
  match plainInteger t with
  | .ok i => .ok i
  | .error .oversized => .error .oversized
  | .error .unreadable =>
    match (tidied t).map plainInteger with
    | some (.ok i) => .ok i
    | _ => .error .unreadable

end SourceChunking.Text
