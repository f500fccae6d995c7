/-!
# The calendar

Dates of the Gregorian calendar and days counted from the first of January 1970.  Years are taken
to start in March, so that a leap day is the last day of its year; four hundred years have a fixed
number of days.
-/

namespace LessonDeck.Calendar

def isLeap (year : Int) : Bool :=
  year % 4 == 0 && (year % 100 != 0 || year % 400 == 0)

def daysInMonth (year : Int) (month : Nat) : Nat :=
  if month = 2 then (if isLeap year then 29 else 28)
  else if month = 4 ∨ month = 6 ∨ month = 9 ∨ month = 11 then 30
  else 31

def isDate (year : Int) (month day : Nat) : Bool :=
  1 ≤ month && month ≤ 12 && 1 ≤ day && day ≤ daysInMonth year month

def daysOfEra : Int :=
  146097

/-- The days from the first of March of the year 0 to the first of January 1970. -/
def daysToEpoch : Int :=
  719468

/-- The day of a date, counted from the first of January 1970. -/
def dayNumber (year : Int) (month day : Nat) : Int :=
  let y : Int := if month ≤ 2 then year - 1 else year
  let era := y.fdiv 400
  let yearOfEra := y.fmod 400
  let dayOfYear : Int := (153 * ((month + 9) % 12) + 2) / 5 + day - 1
  let dayOfEra := yearOfEra * 365 + yearOfEra / 4 - yearOfEra / 100 + dayOfYear
  era * daysOfEra + dayOfEra - daysToEpoch

/-- The year, month and day of a day that is counted from the first of January 1970. -/
def dateOf (number : Int) : Int × Nat × Nat :=
  let z := number + daysToEpoch
  let era := z.fdiv daysOfEra
  let dayOfEra := (z.fmod daysOfEra).toNat
  let yearOfEra := (dayOfEra - dayOfEra / 1460 + dayOfEra / 36524 - dayOfEra / 146096) / 365
  let dayOfYear := dayOfEra - (365 * yearOfEra + yearOfEra / 4 - yearOfEra / 100)
  let shifted := (5 * dayOfYear + 2) / 153
  let day := dayOfYear - (153 * shifted + 2) / 5 + 1
  let month := if shifted < 10 then shifted + 3 else shifted - 9
  let year : Int := era * 400 + yearOfEra
  (if month ≤ 2 then year + 1 else year, month, day)

end LessonDeck.Calendar
