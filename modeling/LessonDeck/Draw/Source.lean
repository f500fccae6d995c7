import LessonDeck.Draw.KeyStream
/-!
# Sources of draws

A source gives one 64-bit word after another: the words of a key stream, or a fixed list over and
over.  A number between zero and one is made from the 53 highest bits of a draw.  A number of a
small range is made by scaling a draw; draws that would favor some numbers are set aside.
-/

namespace LessonDeck.Draw

inductive Origin where
  | keyed (stream : KeyStream)
  /-- A list of draws that starts over at its end. -/
  | cycle (draws : Array UInt64)
  deriving Repr, DecidableEq

structure Source where
  origin : Origin
  position : Nat
  deriving Repr, DecidableEq

namespace Source

def ofSeed (seed stream : UInt64) : Source :=
  ⟨.keyed (KeyStream.ofSeed seed stream), 0⟩

def ofDraws (draws : Array UInt64) : Source :=
  ⟨.cycle draws, 0⟩

def drawAt (s : Source) (place : Nat) : UInt64 :=
  match s.origin with
  | .keyed stream => stream.draw place
  | .cycle draws => draws.getD (place % draws.size) 0

def next (s : Source) : UInt64 × Source :=
  (s.drawAt s.position, { s with position := s.position + 1 })

/-- The number between zero and one, one excluded, that a draw stands for. -/
def unitOf (draw : UInt64) : Float :=
  (draw >>> 11).toFloat / 9007199254740992.0

def nextUnit (s : Source) : Float × Source :=
  let (draw, s) := s.next
  (unitOf draw, s)

/-- A draw scaled to a range of `span` numbers, unless it has to be set aside: the remainder of the
scaling must not lie beyond the largest multiple of the range. -/
def scaled? (span : Nat) (draw : UInt64) : Option Nat :=
  let product := draw.toNat * span
  let zone := span * Nat.pow 2 (63 - span.log2) - 1
  if product % Nat.pow 2 64 ≤ zone then some (product / Nat.pow 2 64) else none

/-- How many draws are looked at for one number of a range. -/
def patience : Nat :=
  4096

/-- The next number below `span`, looking at no more than so many draws. -/
def nextBelow (span : Nat) : Nat → Source → Nat × Source
  | 0, s => (0, s)
  | tries + 1, s =>
    let (draw, s) := s.next
    match scaled? span draw with
    | some n => (n, s)
    | none => nextBelow span tries s

/-- The next number of a range, both ends included. -/
def nextInRange (lo hi : Nat) (s : Source) : Nat × Source :=
  let (n, s) := nextBelow (hi - lo + 1) patience s
  (lo + n, s)

end Source

end LessonDeck.Draw
