import LessonDeck.Color
import LessonDeck.Wheel.Scalar
/-!
# From weights to probabilities

Weights become a distribution with every entry between a lower and an upper bound.  The unit is
shared out in proportion to the weights.  Entries beyond a bound are pinned to it and the remaining
mass is shared among the free ones, until nothing lies beyond a bound.  Each round but the last
pins a color, so that there are at most as many rounds as colors that take part.
-/

namespace LessonDeck

open Scalar

variable {α : Type} [Scalar α]

/-- The weights of a table in which a color may be missing: a missing color weighs nothing. -/
def ByColor.filled (t : ByColor (Option α)) : ByColor α :=
  t.map fun entry => entry.getD 0

namespace Wheel

def uniform : ByColor α :=
  ByColor.const (1 / (Color.all.length : Nat))

/-- The weight of a color, as far as it is positive. -/
def weight (weights : ByColor α) (c : Color) : α :=
  positivePart (weights.get c)

/-- The colors that take part: all of them, or those with a positive weight. -/
def active (weights : ByColor α) (skipZero : Bool) : List Color :=
  Color.all.filter fun c => !skipZero || decide (0 < weight weights c)

structure Bounds (α : Type) where
  low : α
  high : α
  deriving Repr, DecidableEq

/-- Bounds that so many colors can keep: widened to an even share where they need to be. -/
def Bounds.widened (b : Bounds α) (count : Nat) : Bounds α :=
  let even := 1 / (count : α)
  ⟨lesser b.low even, greater b.high even⟩

structure Sharing (α : Type) where
  pinned : ByColor (Option α)
  /-- The number of rounds that pinned entries to a bound. -/
  rounds : Nat
  deriving Repr, DecidableEq

namespace Sharing

def start : Sharing α :=
  ⟨ByColor.const none, 0⟩

def mass (s : Sharing α) : α :=
  sumOf (fun c => (s.pinned.get c).getD 0)
    (Color.all.filter fun c => (s.pinned.get c).isSome)

def pin (s : Sharing α) (colors : List Color) (share : Color → α) : ByColor (Option α) :=
  ByColor.tabulate fun c => if c ∈ colors then some (share c) else s.pinned.get c

/-- What each free color would get: its share of the mass that is left, in proportion to the
weights, or in equal parts if no free color has any weight. -/
def proposal (weights : ByColor α) (s : Sharing α) (free : List Color) (c : Color) : α :=
  let remaining := 1 - s.mass
  let total := sumOf (weight weights) free
  if 0 < total then remaining * weight weights c / total else remaining / (free.length : Nat)

/-- Shares the mass out among the free colors, in at most so many rounds. -/
def settle (weights : ByColor α) (b : Bounds α) : Nat → List Color → Sharing α → Sharing α
  | 0, _, s => s
  | rounds + 1, free, s =>
    if free.isEmpty then s
    else
      let share := s.proposal weights free
      let low := free.filter fun c => share c < b.low - epsilon
      let high := free.filter fun c => b.high + epsilon < share c
      let below := sumOf (fun c => b.low - share c) low
      let above := sumOf (fun c => share c - b.high) high
      if ¬ 0 < below ∧ ¬ 0 < above then { s with pinned := s.pin free share }
      else if above ≤ below then
        settle weights b rounds (free.filter fun c => c ∉ low)
          ⟨s.pin low fun _ => b.low, s.rounds + 1⟩
      else
        settle weights b rounds (free.filter fun c => c ∉ high)
          ⟨s.pin high fun _ => b.high, s.rounds + 1⟩

def among (weights : ByColor α) (b : Bounds α) (colors : List Color) : Sharing α :=
  settle weights (b.widened colors.length) colors.length colors start

end Sharing

/-- The distribution that weights stand for.  With `skipZero`, colors without weight get nothing
and take no part in the bounds.  If no color takes part, all are equally likely. -/
def project (weights : ByColor α) (b : Bounds α) (skipZero : Bool) : ByColor α :=
  let colors := active weights skipZero
  if colors.isEmpty then uniform
  else
    let s := Sharing.among weights b colors
    let mass := s.mass
    ByColor.tabulate fun c => if 0 < mass then (s.pinned.get c).getD 0 / mass else 0

/-- Walks some colors and picks the first whose cumulative probability reaches a number, or else
the last one that has any probability. -/
def sampleFrom (p : ByColor α) (r : α) : α → Option Color → List Color → Color
  | _, last, [] => last.getD .green
  | cumulative, last, c :: cs =>
    if 0 < weight p c then
      let next := cumulative + weight p c
      if r ≤ next then c else sampleFrom p r next (some c) cs
    else sampleFrom p r cumulative last cs

def sample (p : ByColor α) (r : α) : Color :=
  sampleFrom p r 0 none Color.all

end Wheel

end LessonDeck
