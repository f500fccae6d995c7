import LessonDeck.Session.Json
/-!
# The desk

A session behind a counter: every call takes texts and gives a JSON reply.  What cannot be done is
answered with a reason and a code, and changes nothing.
-/

namespace LessonDeck.Desk

def version : String :=
  "0.1.1"

inductive Reply where
  | done
  | value (n : Int64)
  | data (j : Json)
  | refused (message code : String)

namespace Reply

def toJson : Reply → Json
  | done => .object [("success", .bool true)]
  | value n => .object [("success", .bool true), ("value", int64Json n)]
  | data j => j
  | refused message code =>
    .object [("success", .bool false), ("error", .string message), ("code", .string code)]

def text (r : Reply) : String :=
  r.toJson.compact

/-- The reply to a text that does not describe what it should, without the words in which the reader
of the text says what is wrong with it. -/
def unreadable (what : String) : Reply :=
  refused ("invalid " ++ what) SettingsError.invalidJson.code

def ofSpin : Except (WheelError Float) SpinOutcome → Reply
  | .ok outcome => data outcome.toJson
  | .error e => refused e.message e.code

end Reply

/-- The report on the cards that a text describes, at a level. -/
def parse (cards : String) (level : Nat) : Reply :=
  match Card.rowOfText? cards with
  | some row => .data (ParsedCommand.reportJson (ParsedCommand.ofCards level row))
  | none => .unreadable "cards"

def submit (s : Session) (who : Signature) (cards : String) : Reply × Session :=
  match Card.rowOfText? cards with
  | some row =>
    let (submission, s) := s.submit who row
    (.data (Submission.reportJson submission), s)
  | none => (.unreadable "cards", s)

def check (s : Session) (cards : String) : Reply :=
  match Card.rowOfText? cards with
  | some row => .data (ParsedCommand.reportJson (s.check row))
  | none => .unreadable "cards"

def spin (s : Session) (time : Instant) : Reply × Session :=
  let (result, s) := s.spin time
  (.ofSpin result, s)

def forceColor (s : Session) (time : Instant) (name : String) : Reply × Session :=
  let (result, s) := s.forceColor time name
  (.ofSpin result, s)

def wheelStats (s : Session) : Reply :=
  .data s.stats.toJson

def setLevel (s : Session) (level : Nat) : Reply × Session :=
  let (result, s) := s.setLevel level
  match result with
  | .ok () => (.done, s)
  | .error e => (.refused e.message e.code, s)

def setVariables (s : Session) (clock : Nat → Instant) (vars : String) : Reply × Session :=
  match Variables.ofText? vars with
  | some vars => (.done, s.setVariables clock vars)
  | none => (.unreadable "variables", s)

def randomizeGlobal (s : Session) (time : Instant) : Reply × Session :=
  let (n, s) := s.randomize time
  (.value n, s)

def vars (s : Session) : Reply :=
  .data s.vars.toJson

def journal (s : Session) : Reply :=
  .data (journalJson s.journal)

def reset (s : Session) : Reply × Session :=
  (.done, s.reset)

def exportState (s : Session) (time : Instant) : Reply :=
  .data (s.exportBundle time).toJson

def importState (s : Session) (bundle : String) : Reply × Session :=
  match Bundle.ofText? bundle with
  | some b => (.done, s.importBundle b)
  | none => (.refused SettingsError.invalidJson.message SettingsError.invalidJson.code, s)

end LessonDeck.Desk
