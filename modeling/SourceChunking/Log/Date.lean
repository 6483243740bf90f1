import SourceChunking.Binary

/-! # Times and dates

Times are microseconds since the first moment of the year 2020. The date of a time
follows the Gregorian calendar; the days of a year are counted from March, so that
a leap day comes last. Time can pass only within the calendar.
-/
namespace SourceChunking

structure Date where
  year : Int
  month : Nat
  day : Nat
deriving Repr, DecidableEq

namespace Date

def microsecondsPerDay : Int := 86400000000

/-- Days from the first of March of the year zero to the first of January 2020. -/
def daysBefore2020 : Int := 737730

/-- The date of a day counted from the first of March of the year zero. Four
hundred years have 146097 days. -/
def ofDayNumber (n : Int) : Date :=
  let era := n / 146097
  let day := (n % 146097).toNat
  let year := (day - day / 1460 + day / 36524 - day / 146096) / 365
  let dayOfYear := day - (365 * year + year / 4 - year / 100)
  let march := (5 * dayOfYear + 2) / 153
  let month := if march < 10 then march + 3 else march - 9
  ⟨year + era * 400 + (if month ≤ 2 then 1 else 0), month, dayOfYear - (153 * march + 2) / 5 + 1⟩

def ofTime (time : Int) : Date := ofDayNumber (daysBefore2020 + time / microsecondsPerDay)

def isInCalendar (d : Date) : Bool := 1 ≤ d.year && d.year ≤ 9999

def shown (d : Date) : String :=
  toString d.year ++ "-" ++ Text.zeroPadded 2 d.month ++ "-" ++ Text.zeroPadded 2 d.day

end Date

/-- How much time is to pass. Microseconds are negative for the past. -/
inductive Lapse where
  | microseconds (n : Int)
  | infinite
  | undefined
deriving Repr, DecidableEq

def Lapse.ofQuantity : Quantity → Lapse
  | .finite b => .microseconds b.nearestInt
  | .infinite _ => .infinite
  | .undefined => .undefined

inductive TimeError where
  | outOfCalendar
  | tooManyDays (days : Int)
  | beyondWords
  | infinite
  | undefined
deriving Repr, DecidableEq

def TimeError.message : TimeError → String
  | .outOfCalendar => "date value out of range"
  | .tooManyDays days => s!"days={days}; must have magnitude <= 999999999"
  | .beyondWords => "Python int too large to convert to C int"
  | .infinite => "cannot convert float infinity to integer"
  | .undefined => "cannot convert float NaN to integer"

/-- The time when more has passed. Its days are counted in a word of 32 bits, and no
lapse has a billion of them. -/
def timeAfter (time : Int) : Lapse → Except TimeError Int
  | .infinite => .error .infinite
  | .undefined => .error .undefined
  | .microseconds n =>
    let days := n / Date.microsecondsPerDay
    if days < -2147483648 ∨ 2147483647 < days then .error .beyondWords
    else if 999999999 < days.natAbs then .error (.tooManyDays days)
    else if (Date.ofTime (time + n)).isInCalendar then .ok (time + n)
    else .error .outOfCalendar

end SourceChunking
