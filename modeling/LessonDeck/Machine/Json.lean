import LessonDeck.Command.Json
import LessonDeck.Machine.Basic
/-!
# Variables, journals and outcomes in JSON
-/

namespace LessonDeck

open Json

namespace Variables

def toJson (vars : Variables) : Json :=
  .object (vars.entries.map fun b => (b.1, Json.ofOption int64Json b.2))

/-- The variables that an object holds; the last member of a name counts. -/
def ofJson? (j : Json) : Option Variables :=
  (j.table? some (nullable? int64?)).map ofList

def ofText? (text : String) : Option Variables :=
  (Json.parse? text).bind ofJson?

end Variables

def Instant.toJson (t : Instant) : Json :=
  .string t.text

def Instant.ofJson? (j : Json) : Option Instant :=
  j.text?.bind Instant.ofText?

namespace Entry

def toJson (e : Entry) : Json :=
  .object [("timestamp", e.time.toJson), ("actorId", .string e.actor),
    ("actionText", .string e.action), ("resultText", .string e.result),
    ("variablesSnapshot", e.snapshot.toJson), ("kind", .string e.kind.name)]

def ofJson? (j : Json) : Option Entry := do
  let names := ["timestamp", "actorId", "actionText", "resultText", "variablesSnapshot", "kind"]
  match ← j.fields? names false with
  | [some time, some actor, some action, some result, some snapshot, some kind] =>
    return ⟨← Instant.ofJson? time, ← actor.text?, ← action.text?, ← result.text?,
      ← Variables.ofJson? snapshot, ← kind.choice? EntryKind.ofName?⟩
  | _ => none

end Entry

def journalJson (journal : Array Entry) : Json :=
  .array (journal.toList.map Entry.toJson)

def journalOfJson? (j : Json) : Option (Array Entry) :=
  (j.items? Entry.ofJson?).map List.toArray

def Printed.toJson (p : Printed) : Json :=
  .object [("variable", .string p.name), ("value", int64Json p.value)]

def Flow.toJson : Flow → Json
  | statement => .object [("kind", .string "statement")]
  | branch met executed =>
    .object [("kind", .string "branch"), ("conditionMet", .bool met), ("executed", .bool executed)]
  | loop iterations maxReached =>
    .object [("kind", .string "loop"), ("iterations", .nat iterations),
      ("maxReached", .bool maxReached)]

namespace Outcome

def toJson (o : Outcome) : Json :=
  .object [("summary", .string o.summary), ("updatedVariables", o.updated.toJson),
    ("printed", .array (o.printed.map Printed.toJson)), ("flow", o.flow.toJson)]

def flowMembers : Flow → List (String × Json)
  | .statement => []
  | .branch met _ => [("conditionMet", .bool met)]
  | .loop iterations maxReached =>
    [("iterations", .nat iterations), ("maxReached", .bool maxReached)]

/-- The report on an execution: what came of it, or the fault that stopped it.  What is empty is
left out. -/
def reportJson : Except Fault Outcome → Json
  | .ok o =>
    .object <|
      [("success", .bool true), ("result", .string o.summary)] ++
      (if o.updated.entries.isEmpty then [] else [("updatedVariables", o.updated.toJson)]) ++
      Json.member? "printValue" Printed.toJson o.printed.getLast? ++
      (if o.printed.isEmpty then []
        else [("printed", .array (o.printed.map Printed.toJson))]) ++
      flowMembers o.flow
  | .error fault =>
    .object [("success", .bool false), ("error", .string fault.message),
      ("code", .string fault.code)]

end Outcome

namespace Checkpoint

def ofJson? (j : Json) : Option Checkpoint := do
  match ← j.fields? ["variables", "log", "timestamp"] false with
  | [some vars, some log, some time] =>
    return ⟨← Variables.ofJson? vars, ← journalOfJson? log, ← Instant.ofJson? time⟩
  | _ => none

def ofText? (text : String) : Option Checkpoint :=
  (Json.parse? text).bind ofJson?

end Checkpoint

end LessonDeck
