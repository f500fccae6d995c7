/-!
# Decimal integers

Writing an integer in decimal, and reading one into a signed 64-bit word.  A numeral is one
optional sign and then digits.  It is read from the left, and a value that leaves the word's range
ends the reading there and then: what stands behind an overflow is never looked at.
-/

namespace LessonDeck.Text

def digit? (c : Char) : Option Nat :=
  if c.isDigit then some (c.toNat - '0'.toNat) else none

/-- What a text says when it is read as a signed 64-bit number. -/
inductive Reading where
  | number (n : Int)
  /-- It denotes, as far as it was read, a number above the range. -/
  | tooLarge
  /-- It denotes, as far as it was read, a number below the range. -/
  | tooSmall
  | malformed
  deriving Repr, DecidableEq

/-- Digits read from the left onto a value that counts upwards. -/
def readUp (acc : Int) : List Char → Reading
  | [] => .number acc
  | c :: cs =>
    match digit? c with
    | none => .malformed
    | some d =>
      let next := acc * 10 + d
      if next ≤ Int64.maxValue.toInt then readUp next cs else .tooLarge

/-- Digits read from the left onto a value that counts downwards. -/
def readDown (acc : Int) : List Char → Reading
  | [] => .number acc
  | c :: cs =>
    match digit? c with
    | none => .malformed
    | some d =>
      let next := acc * 10 - d
      if Int64.minValue.toInt ≤ next then readDown next cs else .tooSmall

/-- Reads one optional sign and at least one digit. -/
def readInt64 : List Char → Reading
  | [] => .malformed
  | ['+'] => .malformed
  | ['-'] => .malformed
  | '+' :: cs => readUp 0 cs
  | '-' :: cs => readDown 0 cs
  | cs => readUp 0 cs

def readNat? (cs : List Char) : Option Nat :=
  if cs.isEmpty || !cs.all Char.isDigit then none else some (Nat.ofDigitChars 10 cs 0)

def natDigits (n : Nat) : List Char :=
  Nat.toDigits 10 n

def intDigits (n : Int) : List Char :=
  if n < 0 then '-' :: natDigits n.natAbs else natDigits n.natAbs

def showNat (n : Nat) : String :=
  String.ofList (natDigits n)

def showInt (n : Int) : String :=
  String.ofList (intDigits n)

end LessonDeck.Text
