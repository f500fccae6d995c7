import LessonDeck.Text.Blank
import LessonDeck.Text.Numeral
import LessonDeck.Time.Calendar
/-!
# Instants

A point in time to the nanosecond, and its text: a date, a time of day and the distance to
universal time.  Reading is lenient about blanks between the parts and about leading zeros.
Writing gives universal time, with no fraction of a second or one of three, six or nine digits,
the fewest that lose nothing.
-/

namespace LessonDeck

open Text

structure Instant where
  seconds : Int
  /-- The nanoseconds into the second; a second or more during a leap second. -/
  nanos : Nat
  deriving Repr, DecidableEq

namespace Instant

def epoch : Instant :=
  ⟨0, 0⟩

/-- Reads one digit or more, at most so many. -/
def readDigits (most : Nat) (cs : List Char) : Option (Nat × List Char) :=
  let digits := (cs.take most).takeWhile Char.isDigit
  if digits.isEmpty then none else some (Nat.ofDigitChars 10 digits 0, cs.drop digits.length)

/-- Reads a year: four digits at most, or any number of them behind a sign. -/
def readYear (cs : List Char) : Option (Int × List Char) :=
  match trimStart cs with
  | '-' :: cs => (readDigits cs.length cs).map fun (n, rest) => (-n, rest)
  | '+' :: cs => (readDigits cs.length cs).map fun (n, rest) => ((n : Int), rest)
  | cs => (readDigits 4 cs).map fun (n, rest) => ((n : Int), rest)

/-- Reads a part of a date or time: two digits at most. -/
def readPart (cs : List Char) : Option (Nat × List Char) :=
  readDigits 2 (trimStart cs)

/-- Reads a separator, blanks in front of it aside. -/
def readMark (mark : Char) (cs : List Char) : Option (List Char) :=
  match trimStart cs with
  | c :: rest => if c = mark then some rest else none
  | [] => none

/-- Reads the fraction of a second, if there is one, in nanoseconds; digits beyond the ninth are
passed over. -/
def readFraction : List Char → Option (Nat × List Char)
  | '.' :: cs => do
    let (n, rest) ← readDigits 9 cs
    return (n * Nat.pow 10 (9 - (cs.length - rest.length)), rest.dropWhile Char.isDigit)
  | cs => some (0, cs)

def readPair : List Char → Option (Nat × List Char)
  | a :: b :: rest => do return ((← digit? a) * 10 + (← digit? b), rest)
  | _ => none

/-- Reads the distance to universal time, in seconds, behind its sign. -/
def readDistance (cs : List Char) : Option (Int × List Char) := do
  let (hours, cs) ← readPair cs
  let (minutes, rest) ← readPair (cs.dropWhile fun c => c == ':' || isBlank c)
  if minutes < 60 then return ((hours * 3600 + minutes * 60 : Nat), rest) else none

/-- Reads what says how far the clock is from universal time, in seconds. -/
def readZone (cs : List Char) : Option (Int × List Char) :=
  let cs := trimStart cs
  if (cs.take 3).map Char.toLower = ['u', 't', 'c'] then some (0, cs.drop 3)
  else
    match cs with
    | 'Z' :: rest => some (0, rest)
    | 'z' :: rest => some (0, rest)
    | '+' :: rest => readDistance rest
    | '-' :: rest => (readDistance rest).map fun (n, rest) => (-n, rest)
    | '−' :: rest => (readDistance rest).map fun (n, rest) => (-n, rest)
    | _ => none

def isYear (year : Int) : Bool :=
  -262143 ≤ year && year ≤ 262142

/-- Reads an instant.  The second sixty is the leap second at the end of a minute. -/
def read? (cs : List Char) : Option Instant := do
  let (year, cs) ← readYear cs
  let cs ← readMark '-' cs
  let (month, cs) ← readPart cs
  let cs ← readMark '-' cs
  let (day, cs) ← readPart cs
  let cs ←
    match cs with
    | 'T' :: rest => some rest
    | 't' :: rest => some rest
    | ' ' :: rest => some rest
    | _ => none
  let (hour, cs) ← readPart cs
  let cs ← readMark ':' cs
  let (minute, cs) ← readPart cs
  let cs ← readMark ':' cs
  let (second, cs) ← readPart cs
  let (nanos, cs) ← readFraction cs
  let (distance, cs) ← readZone cs
  let isLeapSecond := second == 60
  if isYear year && Calendar.isDate year month day && hour ≤ 23 && minute ≤ 59 && second ≤ 60 &&
      distance.natAbs < 86400 && (trimStart cs).isEmpty then
    let ofDay : Nat := hour * 3600 + minute * 60 + (if isLeapSecond then 59 else second)
    return ⟨Calendar.dayNumber year month day * 86400 + ofDay - distance,
      if isLeapSecond then nanos + 1000000000 else nanos⟩
  else none

def padded (width n : Nat) : List Char :=
  let digits := natDigits n
  List.replicate (width - digits.length) '0' ++ digits

/-- A year: four digits, and beyond them a sign. -/
def yearChars (year : Int) : List Char :=
  if year < 0 then '-' :: padded 4 year.natAbs
  else if 9999 < year then '+' :: padded 4 year.natAbs
  else padded 4 year.natAbs

/-- The fraction of a second in the fewest groups of three digits that lose nothing. -/
def fractionChars (nanos : Nat) : List Char :=
  if nanos = 0 then []
  else if nanos % 1000000 = 0 then '.' :: padded 3 (nanos / 1000000)
  else if nanos % 1000 = 0 then '.' :: padded 6 (nanos / 1000)
  else '.' :: padded 9 nanos

def text (t : Instant) : String :=
  let (year, month, day) := Calendar.dateOf (t.seconds.fdiv 86400)
  let ofDay := (t.seconds.fmod 86400).toNat
  let isLeapSecond := 1000000000 ≤ t.nanos
  let second := ofDay % 60 + (if isLeapSecond then 1 else 0)
  let nanos := if isLeapSecond then t.nanos - 1000000000 else t.nanos
  String.ofList <|
    yearChars year ++ '-' :: padded 2 month ++ '-' :: padded 2 day ++
      'T' :: padded 2 (ofDay / 3600) ++ ':' :: padded 2 (ofDay / 60 % 60) ++
      ':' :: padded 2 second ++ fractionChars nanos ++ ['Z']

def ofText? (s : String) : Option Instant :=
  read? s.toList

end Instant

end LessonDeck
