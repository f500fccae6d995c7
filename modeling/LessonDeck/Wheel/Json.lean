import LessonDeck.Card.Json
import LessonDeck.Wheel.Adaptive
import LessonDeck.Wheel.Campaign
/-!
# Wheels in JSON

Settings are records in which every field may be left out; what is left out is standard.  Spins and
figures are records, too; the figures of a wheel are also read back.
-/

namespace LessonDeck

open Json

/-- A field of settings; the standard if it is left out. -/
def Json.orStandard {α : Type} (read : Json → Option α) (standard : α) : Option Json → Option α
  | none => some standard
  | some j => read j

def seedOfJson? : Json → Option (Option UInt64) :=
  nullable? fun j => (j.natOfBits? 64).map UInt64.ofNat

def seedJson (seed : Option UInt64) : Json :=
  Json.ofOption (fun n => .nat n.toNat) seed

def distributionJson (p : ByColor Float) : Json :=
  ByColor.toJson .float (p.map some)

def colorsJson (cs : List Color) : Json :=
  .array (cs.map Color.toJson)

namespace AdaptiveSettings

def members (s : AdaptiveSettings Float) : List (String × Json) :=
  [("baseProbabilities", ByColor.toJson .float s.base), ("alpha", .float s.alpha),
    ("minProbability", .float s.bounds.low), ("maxProbability", .float s.bounds.high),
    ("maxHistory", .nat s.maxHistory), ("seed", seedJson s.seed)]

def ofJson? (j : Json) : Option (AdaptiveSettings Float) := do
  let names :=
    ["baseProbabilities", "alpha", "minProbability", "maxProbability", "maxHistory", "seed"]
  match ← j.fields? names true with
  | [base, alpha, low, high, maxHistory, seed] =>
    return {
      base := ← orStandard (ByColor.ofJson? float?) standard.base base
      alpha := ← orStandard float? standard.alpha alpha
      bounds :=
        ⟨← orStandard float? standard.bounds.low low, ← orStandard float? standard.bounds.high high⟩
      maxHistory := ← orStandard (natOfBits? 64) standard.maxHistory maxHistory
      seed := ← orStandard seedOfJson? standard.seed seed }
  | _ => none

def ofText? (text : String) : Option (AdaptiveSettings Float) :=
  (Json.parse? text).bind ofJson?

end AdaptiveSettings

namespace CampaignSettings

def members (s : CampaignSettings Float) : List (String × Json) :=
  [("totalRounds", .nat s.totalRounds), ("baseProbabilities", ByColor.toJson .float s.base),
    ("minProbability", .float s.bounds.low), ("maxProbability", .float s.bounds.high),
    ("balanceWindow", .nat s.balanceWindow), ("balanceShift", .float s.balanceShift),
    ("repeatPenalty", .float s.repeatPenalty), ("rareBoost", .float s.rareBoost),
    ("seed", seedJson s.seed)]

def ofJson? (j : Json) : Option (CampaignSettings Float) := do
  let names :=
    ["totalRounds", "baseProbabilities", "minProbability", "maxProbability", "balanceWindow",
      "balanceShift", "repeatPenalty", "rareBoost", "seed"]
  match ← j.fields? names true with
  | [rounds, base, low, high, window, shift, penalty, boost, seed] =>
    return {
      totalRounds := ← orStandard (natOfBits? 32) standard.totalRounds rounds
      base := ← orStandard (ByColor.ofJson? float?) standard.base base
      bounds :=
        ⟨← orStandard float? standard.bounds.low low, ← orStandard float? standard.bounds.high high⟩
      balanceWindow := ← orStandard (natOfBits? 64) standard.balanceWindow window
      balanceShift := ← orStandard float? standard.balanceShift shift
      repeatPenalty := ← orStandard float? standard.repeatPenalty penalty
      rareBoost := ← orStandard float? standard.rareBoost boost
      seed := ← orStandard seedOfJson? standard.seed seed }
  | _ => none

def ofText? (text : String) : Option (CampaignSettings Float) :=
  (Json.parse? text).bind ofJson?

end CampaignSettings

def AdaptiveSpin.toJson (s : AdaptiveSpin Float) : Json :=
  .object [("category", s.color.toJson), ("probabilitiesUsed", distributionJson s.probabilities),
    ("random", .float s.random), ("history", colorsJson s.history)]

def ForcedSpin.toJson (s : ForcedSpin) : Json :=
  .object [("category", s.color.toJson), ("forced", .bool true), ("history", colorsJson s.history)]

/-- A round of a campaign as a record; what was not drawn is left out. -/
def CampaignSpin.toJson (s : CampaignSpin Float) : Json :=
  .object <|
    [("category", s.color.toJson), ("reason", .string s.reason.name), ("round", .nat s.round)] ++
    Json.member? "probabilities" distributionJson (s.draw.map Prod.fst) ++
    Json.member? "random" .float (s.draw.map Prod.snd) ++
    [("forced", .bool s.draw.isNone)]

namespace AdaptiveStats

def toJson (s : AdaptiveStats Float) : Json :=
  .object [("totalSpins", .nat s.totalSpins), ("counts", ByColor.toJson .nat s.counts),
    ("history", colorsJson s.history),
    ("currentProbabilities", ByColor.toJson .float s.probabilities)]

def ofJson? (j : Json) : Option (AdaptiveStats Float) := do
  match ← j.fields? ["totalSpins", "counts", "history", "currentProbabilities"] false with
  | [some spins, some counts, some history, some probabilities] =>
    return ⟨← spins.natOfBits? 64, ← ByColor.ofJson? (natOfBits? 64) counts,
      ← history.items? Color.ofJson?, ← ByColor.ofJson? float? probabilities⟩
  | _ => none

end AdaptiveStats

namespace CampaignStats

def toJson (s : CampaignStats) : Json :=
  .object [("currentRound", .nat s.currentRound), ("totalRounds", .nat s.totalRounds),
    ("remainingRounds", .nat s.remainingRounds), ("rareCount", .nat s.rareCount),
    ("rareTarget", .nat s.rareTarget), ("rareDeficit", .nat s.rareDeficit),
    ("colorCounts", ByColor.toJson .nat s.colorCounts), ("history", colorsJson s.history)]

def ofJson? (j : Json) : Option CampaignStats := do
  let names :=
    ["currentRound", "totalRounds", "remainingRounds", "rareCount", "rareTarget", "rareDeficit",
      "colorCounts", "history"]
  match ← j.fields? names false with
  | [some round, some total, some remaining, some count, some target, some deficit, some counts,
      some history] =>
    return ⟨← round.natOfBits? 32, ← total.natOfBits? 32, ← remaining.natOfBits? 32,
      ← count.natOfBits? 32, ← target.natOfBits? 32, ← deficit.natOfBits? 32,
      ← ByColor.ofJson? (natOfBits? 64) counts, ← history.items? Color.ofJson?⟩
  | _ => none

end CampaignStats

end LessonDeck
