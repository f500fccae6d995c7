import LessonDeck.Decimal.Layout
import LessonDeck.Wheel.Projection
/-!
# Settings of the wheels

What can be chosen for the two kinds of wheels, what is chosen if nothing is said, and which
choices are refused.  Of two faults the one in the bounds comes first, then the first color with a
wrong weight, then weights that are all zero, then the other shares.
-/

namespace LessonDeck

open Scalar

inductive WheelError (α : Type) where
  | unknownColor (e : UnknownColor)
  | invalidProbability (color : Color) (value : α)
  | emptyDistribution
  | invalidBounds (low high : α)
  | campaignFinished (rounds : Nat)
  deriving Repr, DecidableEq

namespace WheelError

def code {α : Type} : WheelError α → String
  | unknownColor _ => "invalid_category"
  | invalidProbability _ _ => "invalid_probability"
  | emptyDistribution => "empty_distribution"
  | invalidBounds _ _ => "invalid_bounds"
  | campaignFinished _ => "campaign_finished"

def message : WheelError Float → String
  | unknownColor e => e.message
  | invalidProbability c x => "invalid probability for " ++ c.name ++ ": " ++ Decimal.plain x
  | emptyDistribution => "probabilities must not all be zero"
  | invalidBounds low high =>
    "invalid probability bounds: min " ++ Decimal.plain low ++ ", max " ++ Decimal.plain high
  | campaignFinished n => "campaign finished after " ++ Text.showNat n ++ " rounds"

end WheelError

/-- Settings of a wheel that corrects itself against its history. -/
structure AdaptiveSettings (α : Type) where
  base : ByColor (Option α)
  alpha : α
  bounds : Wheel.Bounds α
  /-- The number of spins that are remembered. -/
  maxHistory : Nat
  seed : Option UInt64
  deriving Repr, DecidableEq

/-- Settings of a wheel that plays a campaign of a fixed number of rounds. -/
structure CampaignSettings (α : Type) where
  totalRounds : Nat
  base : ByColor (Option α)
  bounds : Wheel.Bounds α
  /-- The number of last spins over which green and red are balanced. -/
  balanceWindow : Nat
  /-- The share of its weight that the leader of the two gives up. -/
  balanceShift : α
  /-- The share of its weight that the last color gives up. -/
  repeatPenalty : α
  /-- The weight that yellow gains for each spin it is behind. -/
  rareBoost : α
  seed : Option UInt64
  deriving Repr, DecidableEq

namespace Wheel

variable {α : Type} [Scalar α]

/-- Refuses bounds that are not in order, or that four colors cannot keep. -/
def checkBounds (b : Bounds α) : Except (WheelError α) Unit :=
  let n : α := (Color.all.length : Nat)
  if isFinite b.low ∧ isFinite b.high ∧ 0 ≤ b.low ∧ b.low ≤ b.high ∧ b.high ≤ 1 ∧
      b.low * n ≤ 1 + epsilon ∧ 1 - epsilon ≤ b.high * n then .ok ()
  else .error (.invalidBounds b.low b.high)

def isWeight (x : α) : Bool :=
  isFinite x && !decide (x < 0)

/-- Refuses the first weight that cannot be used, and weights that are all zero. -/
def checkWeights (weights : ByColor (Option α)) : Except (WheelError α) Unit :=
  let given := weights.toList.filterMap fun (c, entry) => entry.map fun x => (c, x)
  match given.find? fun e => !isWeight e.2 with
  | some (c, x) => .error (.invalidProbability c x)
  | none =>
    if given.all fun e => !decide (0 < e.2) then .error .emptyDistribution else .ok ()

def checkShare (x : α) : Except (WheelError α) Unit :=
  if 0 ≤ x ∧ x ≤ 1 then .ok () else .error (.invalidProbability .green x)

end Wheel

namespace AdaptiveSettings

def standard : AdaptiveSettings Float where
  base := ByColor.const (some 0.25)
  alpha := 0.6
  bounds := ⟨0.12, 0.5⟩
  maxHistory := 10
  seed := none

def check {α : Type} [Scalar α] (s : AdaptiveSettings α) : Except (WheelError α) Unit := do
  Wheel.checkBounds s.bounds
  Wheel.checkWeights s.base

end AdaptiveSettings

namespace CampaignSettings

def standard : CampaignSettings Float where
  totalRounds := 15
  base := ⟨some 0.45, some 0.30, some 0.15, some 0.10⟩
  bounds := ⟨0.05, 0.60⟩
  balanceWindow := 6
  balanceShift := 0.25
  repeatPenalty := 0.3
  rareBoost := 0.15
  seed := none

def check {α : Type} [Scalar α] (s : CampaignSettings α) : Except (WheelError α) Unit := do
  Wheel.checkBounds s.bounds
  Wheel.checkWeights s.base
  Wheel.checkShare s.balanceShift
  Wheel.checkShare s.repeatPenalty
  if Wheel.isWeight s.rareBoost then .ok () else .error (.invalidProbability .yellow s.rareBoost)

end CampaignSettings

end LessonDeck
