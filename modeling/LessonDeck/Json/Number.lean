import LessonDeck.Json.Basic
/-!
# Numbers in JSON

A number without fraction and exponent that fits into a 64-bit word is whole; `-0` and everything
else is a double.  A double is made from as many leading digits as fit into an unsigned 64-bit
word, the significand, which is then scaled by a power of ten in double arithmetic.
-/

namespace LessonDeck.Json

structure Literal where
  negative : Bool
  whole : List Char
  fraction : Option (List Char)
  /-- The sign and the digits of the exponent, if there is one. -/
  exponent : Option (Bool × List Char)
  deriving Repr, DecidableEq

namespace Literal

def maxWord : Nat :=
  0xFFFFFFFFFFFFFFFF

def digit (c : Char) : Nat :=
  c.toNat - '0'.toNat

/-- Takes digits into the significand while it stays a word; gives the digits left over, too. -/
def absorb (significand : Nat) : List Char → Nat × List Char
  | [] => (significand, [])
  | c :: cs =>
    let next := significand * 10 + digit c
    if next ≤ maxWord then absorb next cs else (significand, c :: cs)

/-- The significand and the power of ten it is scaled by, exponent aside.  Digits before the point
that no longer fit still count as places; digits behind it that do not fit are dropped. -/
def mantissa (l : Literal) : Nat × Int :=
  let (whole, unread) := absorb 0 l.whole
  let (significand, dropped) := absorb whole (l.fraction.getD [])
  (significand, (unread.length : Int) - ((l.fraction.getD []).length - dropped.length : Nat))

def maxPower : Nat :=
  308

def tenTo (n : Nat) : Float :=
  Float.ofScientific 1 false n

/-- Scales a double by a power of ten; there is no result beyond the doubles.  Very small numbers
are divided in steps, which end at zero. -/
def scale (x : Float) (power : Int) : Option Float :=
  if power.natAbs ≤ maxPower then
    if 0 ≤ power then
      let scaled := x * tenTo power.natAbs
      if scaled.isInf then none else some scaled
    else some (x / tenTo power.natAbs)
  else if x == 0 then some x
  else if 0 ≤ power then none
  else scale (x / tenTo maxPower) (power + maxPower)
termination_by (-power).toNat
decreasing_by
  simp only [maxPower] at *
  omega

/-- The largest exponent that is counted. -/
def maxExponent : Nat :=
  0x7FFFFFFF

def toFloat? (l : Literal) : Option Float :=
  let (significand, places) := l.mantissa
  let sign (x : Float) : Float := if l.negative then -x else x
  match l.exponent with
  | none => (scale (Float.ofNat significand) places).map sign
  | some (down, digits) =>
    let n := Nat.ofDigitChars 10 digits 0
    if maxExponent < n then
      if significand ≠ 0 ∧ !down then none else some (sign 0)
    else
      let power : Int := if down then places - n else places + n
      (scale (Float.ofNat significand) power).map sign

def value (l : Literal) : Json :=
  let n := Nat.ofDigitChars 10 l.whole 0
  let isWhole := l.fraction.isNone && l.exponent.isNone
  if isWhole && !l.negative && n ≤ maxWord then .int n
  else if isWhole && l.negative && 0 < n && n ≤ 0x8000000000000000 then .int (-n)
  else
    match l.toFloat? with
    | some x => .float x
    | none => .garbled

end Literal

def spanDigits (cs : List Char) : List Char × List Char :=
  cs.span Char.isDigit

/-- Reads the digits before the point: no zero may stand in front of another digit. -/
def readWhole (cs : List Char) : Option (List Char × List Char) :=
  match spanDigits cs with
  | ([], _) => none
  | ('0' :: _ :: _, _) => none
  | (digits, rest) => some (digits, rest)

def readFraction : List Char → Option (Option (List Char) × List Char)
  | '.' :: cs =>
    match spanDigits cs with
    | ([], _) => none
    | (digits, rest) => some (some digits, rest)
  | cs => some (none, cs)

def readExponentDigits (cs : List Char) : Option (Option (Bool × List Char) × List Char) :=
  let (down, behind) :=
    match cs with
    | '-' :: r => (true, r)
    | '+' :: r => (false, r)
    | r => (false, r)
  match spanDigits behind with
  | ([], _) => none
  | (digits, rest) => some (some (down, digits), rest)

def readExponent : List Char → Option (Option (Bool × List Char) × List Char)
  | 'e' :: cs => readExponentDigits cs
  | 'E' :: cs => readExponentDigits cs
  | cs => some (none, cs)

def readNumber (cs : List Char) : Option (Json × List Char) := do
  let (negative, unsigned) :=
    match cs with
    | '-' :: r => (true, r)
    | r => (false, r)
  let (whole, afterWhole) ← readWhole unsigned
  let (fraction, afterFraction) ← readFraction afterWhole
  let (exponent, rest) ← readExponent afterFraction
  return ((Literal.mk negative whole fraction exponent).value, rest)

end LessonDeck.Json
