import LessonDeck.Command.Parse
import LessonDeck.Draw.Source
import LessonDeck.Machine.Basic
import LessonDeck.Session.Settings
/-!
# Sessions

A session joins a level, a machine and a wheel.  Two sources feed it: one the wheel, the other the
draws of the teacher, so that neither disturbs the other.  An operation gives its result and beside
it the session as it is then, also when the operation is refused.
-/

namespace LessonDeck

open Draw

inductive SessionWheel where
  | adaptive (wheel : AdaptiveWheel Float)
  | campaign (wheel : Campaign Float)

inductive WheelStats where
  | adaptive (stats : AdaptiveStats Float)
  | campaign (stats : CampaignStats)

/-- What came of a spin, or of setting a color by hand. -/
inductive SpinOutcome where
  | adaptive (spin : AdaptiveSpin Float)
  | forced (spin : ForcedSpin)
  | campaign (spin : CampaignSpin Float)

namespace SpinOutcome

def color : SpinOutcome → Color
  | adaptive s => s.color
  | forced s => s.color
  | campaign s => s.color

/-- How the journal tells what came up. -/
def text : SpinOutcome → String
  | campaign s => "round " ++ Text.showNat s.round ++ ": color " ++ s.color.name
  | other => "color " ++ other.color.name

end SpinOutcome

namespace SessionWheel

def create : WheelSettings → Except (WheelError Float) SessionWheel
  | .adaptive s => (AdaptiveWheel.create s).map adaptive
  | .campaign s => (Campaign.create s).map campaign

def stats : SessionWheel → WheelStats
  | adaptive w => .adaptive w.stats
  | campaign w => .campaign w.stats

/-- Spins the wheel with the next draw of a source. -/
def spin (w : SessionWheel) (draws : Source) :
    Except (WheelError Float) SpinOutcome × SessionWheel × Source :=
  match w with
  | adaptive w =>
    let (r, draws) := draws.nextUnit
    let (s, w) := w.spin r
    (.ok (.adaptive s), adaptive w, draws)
  | campaign w =>
    let (result, w, draws) := w.spinFrom Source.nextUnit draws
    (result.map .campaign, campaign w, draws)

def forceNamed (w : SessionWheel) (name : String) :
    Except (WheelError Float) SpinOutcome × SessionWheel :=
  match w with
  | adaptive w =>
    let (result, w) := w.forceNamed name
    (result.map .forced, adaptive w)
  | campaign w =>
    let (result, w) := w.forceNamed name
    (result.map .campaign, campaign w)

/-- The wheel at its start; a campaign keeps its length. -/
def reset : SessionWheel → SessionWheel
  | adaptive w => adaptive w.reset
  | campaign w => campaign (w.reset w.settings.totalRounds)

end SessionWheel

/-- Who spins the wheel, as far as the journal is concerned. -/
def spinActor : String :=
  "system"

/-- Who overrides the game, as far as the journal is concerned. -/
def teacherActor : String :=
  "teacher"

def drawLow : Nat :=
  5

def drawHigh : Nat :=
  15

structure Session where
  level : Nat
  machine : Machine
  wheel : SessionWheel
  wheelDraws : Source
  tableDraws : Source

/-- What came of submitting cards: why they form no command, or the command with what came of
it. -/
abbrev Submission :=
  Except CommandError (ParsedCommand × Except Fault Outcome)

structure Bundle where
  vars : Variables
  journal : Array Entry
  wheelStats : WheelStats
  time : Instant

namespace Session

/-- A session at its start, unless the settings are refused.  Without a seed in the settings the
draws start from another one. -/
def create (settings : SessionSettings) (otherSeed : UInt64) : Except SettingsError Session := do
  settings.check
  let wheel ← (SessionWheel.create settings.seededWheel).mapError .wheel
  return {
    level := settings.level
    machine := Machine.new defaultCap
    wheel := wheel
    wheelDraws := Source.ofSeed (settings.seededWheel.seed.getD otherSeed) 0
    tableDraws := Source.ofSeed (settings.seed.getD otherSeed) 1 }

def ofText (text : String) (otherSeed : UInt64) : Except SettingsError Session := do
  let settings ← SessionSettings.ofText text
  create settings otherSeed

def setLevel (s : Session) (level : Nat) : Except SettingsError Unit × Session :=
  match checkLevel level with
  | .error e => (.error e, s)
  | .ok () => (.ok (), { s with level := level })

def check (s : Session) (cards : List Card) : Except CommandError ParsedCommand :=
  ParsedCommand.ofCards s.level cards

/-- Parses cards and executes the command they form. -/
def submit (s : Session) (who : Signature) (cards : List Card) : Submission × Session :=
  match s.check cards with
  | .error e => (.error e, s)
  | .ok parsed =>
    let (result, machine) := s.machine.execute who parsed.command
    (.ok (parsed, result), { s with machine := machine })

def spin (s : Session) (time : Instant) : Except (WheelError Float) SpinOutcome × Session :=
  let (result, wheel, draws) := s.wheel.spin s.wheelDraws
  let s := { s with wheel := wheel, wheelDraws := draws }
  match result with
  | .error e => (.error e, s)
  | .ok outcome =>
    let machine := s.machine.log (.once spinActor time) .info "wheel spun" outcome.text
    (.ok outcome, { s with machine := machine })

def forceColor (s : Session) (time : Instant) (name : String) :
    Except (WheelError Float) SpinOutcome × Session :=
  let (result, wheel) := s.wheel.forceNamed name
  let s := { s with wheel := wheel }
  match result with
  | .error e => (.error e, s)
  | .ok outcome =>
    let machine := s.machine.log (.once teacherActor time) .info "color forced" outcome.text
    (.ok outcome, { s with machine := machine })

def stats (s : Session) : WheelStats :=
  s.wheel.stats

/-- Writes one variable by hand.  The journal tells the number as it was given. -/
def override (clock : Nat → Instant) (m : Machine) (b : Binding) : Machine :=
  let shown := (b.2.map Value.text).getD "null"
  { m with vars := m.vars.write b.1 b.2 }.log ⟨teacherActor, clock⟩ .info
    "variable set manually" (b.1 ++ " = " ++ shown)

/-- Writes variables by hand, in the order of their names, with an entry for each. -/
def setVariables (s : Session) (clock : Nat → Instant) (vars : Variables) : Session :=
  { s with machine := vars.entries.foldl (override clock) s.machine }

/-- Draws a number for the variable that every game starts with. -/
def randomize (s : Session) (time : Instant) : Int64 × Session :=
  let (n, draws) := s.tableDraws.nextInRange drawLow drawHigh
  let v := Int64.ofNat n
  let told :=
    Variables.initialName ++ " = " ++ Value.text v ++ " (random " ++ Text.showNat drawLow ++ "-" ++
      Text.showNat drawHigh ++ ")"
  let written :=
    { s.machine with vars := s.machine.vars.write Variables.initialName (some v) }
  let machine := written.log (.once teacherActor time) .info "global variable randomized" told
  (v, { s with machine := machine, tableDraws := draws })

def vars (s : Session) : Variables :=
  s.machine.vars

def journal (s : Session) : Array Entry :=
  s.machine.journal

/-- Fresh variables, an empty journal, and the wheel at its start.  The level and the sources of
draws stay. -/
def reset (s : Session) : Session :=
  { s with machine := s.machine.reset, wheel := s.wheel.reset }

def exportBundle (s : Session) (time : Instant) : Bundle :=
  ⟨s.vars, s.journal, s.stats, time⟩

/-- Takes over the variables and the journal of a bundle.  Its figures of a wheel are for people
only. -/
def importBundle (s : Session) (b : Bundle) : Session :=
  { s with machine := s.machine.restore ⟨b.vars, b.journal, b.time⟩ }

end Session

end LessonDeck
