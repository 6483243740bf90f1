import SourceChunking.Text.Basic

/-! # Binary fractions

Reals are binary fractions: a sign, and a natural number of at most 53 bits times
a power of two. A result that needs more bits is rounded to the nearest fraction, a
tie to the even one, and zero keeps its sign. The arithmetic below is exact on
naturals, so each rounding is made once and where it is named.

A fraction is shown by the fewest digits that read back as the same fraction. Past
the largest fraction a quantity is infinite, and one that is no number at all is
undefined.
-/
namespace SourceChunking

/-- The nearest natural to a quotient; a tie goes to the even one. -/
def roundQuotient (n d : Nat) : Nat :=
  let q := n / d
  let r := n % d
  if 2 * r < d then q else if d < 2 * r then q + 1 else if q % 2 = 0 then q else q + 1

structure Ratio where
  num : Nat
  den : Nat
deriving Repr, DecidableEq

namespace Ratio

def ofNat (n : Nat) : Ratio := ⟨n, 1⟩

/-- The product with a power of a base; the exponent may be negative. -/
def scale (base : Nat) (k : Int) (r : Ratio) : Ratio :=
  if 0 ≤ k then ⟨r.num * Nat.pow base k.toNat, r.den⟩
  else ⟨r.num, r.den * Nat.pow base (-k).toNat⟩

def atLeast (r : Ratio) (n : Nat) : Bool := n * r.den ≤ r.num

def floor (r : Ratio) : Nat := r.num / r.den

def nearest (r : Ratio) : Nat := roundQuotient r.num r.den

/-- The number of decimal digits before the point of a positive ratio; below a
tenth, minus the number of zeros after the point. -/
def pointPlace (r : Ratio) : Int :=
  let k : Int := ((toString r.num).length : Int) - (toString r.den).length
  if (r.scale 10 (-k)).atLeast 1 then k + 1 else k

end Ratio

structure Decimal where
  digits : Nat
  exponent : Int
deriving Repr, DecidableEq

def Decimal.toRatio (d : Decimal) : Ratio := (Ratio.ofNat d.digits).scale 10 d.exponent

structure Binary where
  negative : Bool
  mantissa : Nat
  exponent : Int
deriving Repr, DecidableEq

namespace Binary

def leastExponent : Int := -1074

/-- The exponent that leaves 53 bits before the point of a positive ratio, or the
least one. -/
def exponentOf (r : Ratio) : Int :=
  let e : Int := (Nat.log2 r.num : Int) - Nat.log2 r.den - 52
  max leastExponent (if (r.scale 2 (-e)).atLeast (Nat.pow 2 52) then e else e - 1)

def nearest (negative : Bool) (r : Ratio) : Binary :=
  if r.num = 0 then ⟨negative, 0, leastExponent⟩
  else
    let m := (r.scale 2 (-exponentOf r)).nearest
    if m = Nat.pow 2 53 then ⟨negative, Nat.pow 2 52, exponentOf r + 1⟩
    else ⟨negative, m, exponentOf r⟩

def zero : Binary := ⟨false, 0, leastExponent⟩

def ofDecimal (negative : Bool) (d : Decimal) : Binary := nearest negative d.toRatio

def magnitude (b : Binary) : Ratio := (Ratio.ofNat b.mantissa).scale 2 b.exponent

def withSign (b : Binary) (n : Nat) : Int := if b.negative then -n else n

/-- A sum is negative zero only if both of its terms are. -/
def add (a b : Binary) : Binary :=
  let x := a.magnitude
  let y := b.magnitude
  let sum := a.withSign (x.num * y.den) + b.withSign (y.num * x.den)
  nearest (if sum = 0 then a.negative && b.negative else decide (sum < 0))
    ⟨sum.natAbs, x.den * y.den⟩

def times (n : Nat) (b : Binary) : Binary :=
  nearest b.negative ⟨b.magnitude.num * n, b.magnitude.den⟩

def toInt? (b : Binary) : Option Int :=
  if b.magnitude.num % b.magnitude.den = 0 then some (b.withSign b.magnitude.floor) else none

def nearestInt (b : Binary) : Int := b.withSign b.magnitude.nearest

/-- The fraction nearest to the nearest decimal with the given number of places. -/
def roundTo (places : Nat) (b : Binary) : Binary :=
  ofDecimal b.negative ⟨(b.magnitude.scale 10 places).nearest, -places⟩

def sign (b : Binary) : String := if b.negative then "-" else ""

def tenths (b : Binary) : String :=
  let n := (b.magnitude.scale 10 1).nearest
  b.sign ++ toString (n / 10) ++ "." ++ toString (n % 10)

/-- The two decimals of so many digits around a positive fraction, the nearer one
first; of two as near, the one with the even last digit. -/
def around (b : Binary) (count : Nat) : List Decimal :=
  let place := b.magnitude.pointPlace - count
  let r := b.magnitude.scale 10 (-place)
  let below : Decimal := ⟨r.floor, place⟩
  let above : Decimal := ⟨r.floor + 1, place⟩
  if r.nearest = r.floor then [below, above] else [above, below]

/-- The decimal with the fewest digits that reads back as the fraction; seventeen
are always enough. -/
def shortest (b : Binary) : Decimal :=
  ((List.range 17).findSome? fun i =>
    (b.around (i + 1)).find? fun d => ofDecimal b.negative d == b).getD ⟨0, 0⟩

/-- Digits from a ten-thousandth up to ten to the sixteenth stand around a point,
with one at least behind it. Otherwise one digit stands before the point and an
exponent of at least two digits follows. -/
def layout (d : Decimal) : String :=
  let all := (toString d.digits).toList
  let ds := Text.trimEndWhere (· == '0') all
  let exponent : Int := (all.length : Int) - 1 + d.exponent
  if exponent < -4 ∨ 16 ≤ exponent then
    String.ofList (ds.take 1) ++
      (if ds.length ≤ 1 then "" else "." ++ String.ofList (ds.drop 1)) ++
      (if exponent < 0 then "e-" else "e+") ++ Text.zeroPadded 2 exponent.natAbs
  else if exponent < 0 then
    "0." ++ String.ofList (List.replicate (exponent.natAbs - 1) '0' ++ ds)
  else
    let whole := exponent.toNat + 1
    String.ofList (ds.take whole ++ List.replicate (whole - ds.length) '0') ++ "." ++
      (if ds.length ≤ whole then "0" else String.ofList (ds.drop whole))

def shown (b : Binary) : String :=
  b.sign ++ if b.mantissa = 0 then "0.0" else layout b.shortest

end Binary

inductive Quantity where
  | finite (b : Binary)
  | infinite (negative : Bool)
  | undefined
deriving Repr, DecidableEq

namespace Quantity

def greatestExponent : Int := 971

def ofDecimal (negative : Bool) (d : Decimal) : Quantity :=
  let b := Binary.ofDecimal negative d
  if greatestExponent < b.exponent then .infinite negative else .finite b

def isZero : Quantity → Bool
  | .finite b => b.mantissa == 0
  | _ => false

def shown : Quantity → String
  | .finite b => b.shown
  | .infinite negative => if negative then "-inf" else "inf"
  | .undefined => "nan"

def documented : Quantity → String
  | .finite b => b.shown
  | .infinite negative => if negative then "-Infinity" else "Infinity"
  | .undefined => "NaN"

end Quantity

/-- Seconds as they are measured from a whole number of microseconds. -/
def secondsOf (microseconds : Int) : Binary :=
  Binary.nearest (microseconds < 0) ⟨microseconds.natAbs, 1000000⟩

def Binary.milliseconds (seconds : Binary) : String := (seconds.times 1000).tenths

end SourceChunking
