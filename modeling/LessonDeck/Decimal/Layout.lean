import LessonDeck.Decimal.Shortest
import LessonDeck.Text.Numeral
/-!
# Layouts for decimals

Two ways to write the shortest decimal of a double.  The plain layout never uses an exponent and
writes whole numbers without a point; it serves texts for people.  The exchange layout always
shows a point or an exponent, so that what was a double is read back as one.
-/

namespace LessonDeck.Decimal

open Text

def zeros (n : Nat) : List Char :=
  List.replicate n '0'

/-- Digits with a point after so many of them, and at least one digit on both sides. -/
def withPoint (digits : List Char) (whole : Nat) : List Char :=
  digits.take whole ++ '.' :: digits.drop whole

/-- A decimal without an exponent, and without a point if it is whole. -/
def plainDigits (s : Scaled) : List Char :=
  let digits := natDigits s.digits
  let whole : Int := digits.length + s.exponent
  if 0 ≤ s.exponent then digits ++ zeros s.exponent.toNat
  else if 0 < whole then withPoint digits whole.toNat
  else '0' :: '.' :: zeros (-whole).toNat ++ digits

/-- A decimal with a point or an exponent: positional from `10 ^ -5` up to `10 ^ 16`, and with one
digit before the point of the mantissa beyond. -/
def exchangeDigits (s : Scaled) : List Char :=
  let digits := natDigits s.digits
  let whole : Int := digits.length + s.exponent
  if 0 ≤ s.exponent ∧ whole ≤ 16 then digits ++ zeros s.exponent.toNat ++ ['.', '0']
  else if 0 < whole ∧ whole ≤ 16 then withPoint digits whole.toNat
  else if -5 < whole ∧ whole ≤ 0 then '0' :: '.' :: zeros (-whole).toNat ++ digits
  else if digits.length = 1 then digits ++ 'e' :: intDigits (whole - 1)
  else withPoint digits 1 ++ 'e' :: intDigits (whole - 1)

def signed (negative : Bool) (cs : List Char) : List Char :=
  if negative then '-' :: cs else cs

/-- A double for people: its shortest decimal, never with an exponent. -/
def plain (x : Float) : String :=
  String.ofList <|
    match decode x with
    | .nan => "NaN".toList
    | .infinite negative => signed negative "inf".toList
    | .finite negative significand exponent =>
      signed negative <|
        if significand = 0 then ['0'] else plainDigits (shortest significand exponent)

/-- A double for exchange: its shortest decimal with a point or an exponent.  What is no finite
number has no such form. -/
def exchange? (x : Float) : Option String :=
  match decode x with
  | .nan => none
  | .infinite _ => none
  | .finite negative significand exponent =>
    some <| String.ofList <| signed negative <|
      if significand = 0 then ['0', '.', '0'] else exchangeDigits (shortest significand exponent)

end LessonDeck.Decimal
