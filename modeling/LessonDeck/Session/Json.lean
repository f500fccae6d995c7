import LessonDeck.Machine.Json
import LessonDeck.Session.Basic
/-!
# Sessions in JSON
-/

namespace LessonDeck

open Json

def SpinOutcome.toJson : SpinOutcome → Json
  | adaptive s => s.toJson
  | forced s => s.toJson
  | campaign s => s.toJson

def Submission.reportJson : Submission → Json
  | .ok (parsed, result) =>
    .object [("valid", .bool true), ("command", .string parsed.text),
      ("tree", parsed.command.toJson), ("execution", Outcome.reportJson result)]
  | .error e =>
    .object [("valid", .bool false), ("error", .string e.message), ("code", .string e.code)]

namespace WheelStats

def toJson : WheelStats → Json
  | adaptive s => s.toJson
  | campaign s => s.toJson

/-- The figures that a record describes, at a depth of one: those of a campaign if they fit, or
else those of an adaptive wheel. -/
def ofJson? (j : Json) : Option WheelStats :=
  if j.fits (maxDepth - 1) then
    match CampaignStats.ofJson? j with
    | some s => some (campaign s)
    | none => (AdaptiveStats.ofJson? j).map adaptive
  else none

end WheelStats

namespace Bundle

def toJson (b : Bundle) : Json :=
  .object [("variables", b.vars.toJson), ("log", journalJson b.journal),
    ("wheelStats", b.wheelStats.toJson), ("timestamp", b.time.toJson)]

/-- The text of a bundle, laid out over lines. -/
def text (b : Bundle) : String :=
  b.toJson.pretty

def ofJson? (j : Json) : Option Bundle := do
  match ← j.fields? ["variables", "log", "wheelStats", "timestamp"] false with
  | [some vars, some log, some stats, some time] =>
    return ⟨← Variables.ofJson? vars, ← journalOfJson? log, ← WheelStats.ofJson? stats,
      ← Instant.ofJson? time⟩
  | _ => none

def ofText? (text : String) : Option Bundle :=
  (Json.parse? text).bind ofJson?

end Bundle

end LessonDeck
