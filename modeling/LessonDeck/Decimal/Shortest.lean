/-!
# The shortest decimal of a double

A double stands for all reals that round to it.  Among the decimals in that interval the shortest
is written: the one with the fewest significant digits and, of two with equally many, the one
nearer to the double.  Everything is exact arithmetic on natural numbers.
-/

namespace LessonDeck.Decimal

inductive Decoded where
  | nan
  | infinite (negative : Bool)
  /-- Plus or minus `significand * 2 ^ exponent`. -/
  | finite (negative : Bool) (significand : Nat) (exponent : Int)
  deriving Repr, DecidableEq

def decode (x : Float) : Decoded :=
  let bits : Nat := x.toBits.toNat
  let negative := bits / Nat.pow 2 63 == 1
  let biased : Nat := bits / Nat.pow 2 52 % Nat.pow 2 11
  let fraction : Nat := bits % Nat.pow 2 52
  if biased = 2047 then
    if fraction = 0 then .infinite negative else .nan
  else if biased = 0 then .finite negative fraction (-1074)
  else .finite negative (Nat.pow 2 52 + fraction) ((biased : Int) - 1075)

/-- The decimal `digits * 10 ^ exponent`. -/
structure Scaled where
  digits : Nat
  exponent : Int
  deriving Repr, DecidableEq

/-- The power of ten of the leading digit of a positive rational `num / den`, found by counting up
or down from a first guess that is at most the budget away. -/
def leadingPower (num den : Nat) : Nat → Int → Int
  | 0, power => power
  | budget + 1, power =>
    let n := num * Nat.pow 10 (-power).toNat
    let d := den * Nat.pow 10 power.toNat
    if n < d then leadingPower num den budget (power - 1)
    else if 10 * d ≤ n then leadingPower num den budget (power + 1)
    else power

def guessPower (num den : Nat) : Int :=
  ((num.log2 : Int) - (den.log2 : Int)) * 30103 / 100000

/-- The interval of the reals that round to a double, in quarters of its unit in the last place,
and whether the two ends belong to it. -/
structure Interval where
  low : Nat
  mid : Nat
  high : Nat
  /-- Whether the ends themselves round to the double. -/
  closed : Bool
  deriving Repr, DecidableEq

/-- The interval of `significand * 2 ^ exponent`.  Below a power of two the doubles lie twice as
close. -/
def interval (significand : Nat) (exponent : Int) : Interval :=
  let gap := if significand = Nat.pow 2 52 ∧ -1074 < exponent then 1 else 2
  ⟨4 * significand - gap, 4 * significand, 4 * significand + 2, significand % 2 == 0⟩

/-- The best decimal with its last digit at a power of ten, if one rounds to the double.  Doubles
and decimals are compared as multiples of one common unit. -/
def onGrid? (i : Interval) (exponent power : Int) : Option Scaled :=
  let up := Nat.pow 2 exponent.toNat * Nat.pow 10 (-power).toNat
  let unit := 4 * Nat.pow 2 (-exponent).toNat * Nat.pow 10 power.toNat
  let inside (d : Nat) : Bool :=
    if i.closed then i.low * up ≤ d * unit && d * unit ≤ i.high * up
    else i.low * up < d * unit && d * unit < i.high * up
  let below := i.mid * up / unit
  let above := below + 1
  let fromBelow := i.mid * up - below * unit
  let fromAbove := above * unit - i.mid * up
  match below != 0 && inside below, inside above with
  | false, false => none
  | true, false => some ⟨below, power⟩
  | false, true => some ⟨above, power⟩
  | true, true =>
    if fromBelow < fromAbove || (fromBelow == fromAbove && below % 2 == 0) then
      some ⟨below, power⟩
    else some ⟨above, power⟩

/-- The first grid, from coarse to fine, that holds a decimal of the interval. -/
def firstGrid (i : Interval) (exponent : Int) : Nat → Int → Scaled
  | 0, power => (onGrid? i exponent power).getD ⟨0, 0⟩
  | finer + 1, power =>
    match onGrid? i exponent power with
    | some s => s
    | none => firstGrid i exponent finer (power - 1)

/-- The shortest decimal that rounds to the double `significand * 2 ^ exponent`, which is not
zero.  Seventeen digits always suffice. -/
def shortest (significand : Nat) (exponent : Int) : Scaled :=
  let num := significand * Nat.pow 2 exponent.toNat
  let den := Nat.pow 2 (-exponent).toNat
  let top := leadingPower num den 8 (guessPower num den)
  firstGrid (interval significand exponent) exponent 18 (top + 1)

end LessonDeck.Decimal
