import LessonDeck.Command.Parse
import LessonDeck.Wheel.Json
/-!
# Settings of a session

The level, the wheel with its settings, and a seed that goes before the seed of the wheel.  As for
wheels, everything may be left out.
-/

namespace LessonDeck

open Json

inductive WheelSettings where
  | adaptive (settings : AdaptiveSettings Float)
  | campaign (settings : CampaignSettings Float)

namespace WheelSettings

def standard : WheelSettings :=
  adaptive AdaptiveSettings.standard

def withSeed (seed : UInt64) : WheelSettings → WheelSettings
  | adaptive s => adaptive { s with seed := some seed }
  | campaign s => campaign { s with seed := some seed }

def seed : WheelSettings → Option UInt64
  | adaptive s => s.seed
  | campaign s => s.seed

def check : WheelSettings → Except (WheelError Float) Unit
  | adaptive s => s.check
  | campaign s => s.check

def toJson : WheelSettings → Json
  | adaptive s => .object (("mode", .string "adaptive") :: s.members)
  | campaign s => .object (("mode", .string "strategic") :: s.members)

/-- The settings that a tagged record describes, at a depth of one. -/
def ofJson? (j : Json) : Option WheelSettings :=
  if j.fits (maxDepth - 1) then do
    match ← j.tagged? "mode" with
    | (.string mode, body) =>
      if mode = "adaptive" then (AdaptiveSettings.ofJson? body).map adaptive
      else if mode = "strategic" then (CampaignSettings.ofJson? body).map campaign
      else none
    | _ => none
  else none

end WheelSettings

inductive SettingsError where
  /-- The text does not describe what it should. -/
  | invalidJson
  | invalidLevel (level : Nat)
  | wheel (e : WheelError Float)

namespace SettingsError

def code : SettingsError → String
  | invalidJson => "invalid_json"
  | invalidLevel _ => "invalid_level"
  | wheel e => e.code

/-- How an error is told.  Of a text that does not describe what it should only the beginning is
told: the words in which the reader of the text says what is wrong with it, behind a colon, are left
out here. -/
def message : SettingsError → String
  | invalidJson => "invalid JSON"
  | invalidLevel n => "invalid level " ++ Text.showNat n ++ ": expected 1 to 4"
  | wheel e => e.message

end SettingsError

def checkLevel (level : Nat) : Except SettingsError Unit :=
  if isLevel level then .ok () else .error (.invalidLevel level)

structure SessionSettings where
  level : Nat
  wheel : WheelSettings
  seed : Option UInt64

namespace SessionSettings

def standard : SessionSettings :=
  ⟨minLevel, WheelSettings.standard, none⟩

/-- Refuses settings that cannot be used: a wrong level first, then a wrong wheel. -/
def check (s : SessionSettings) : Except SettingsError Unit := do
  checkLevel s.level
  s.wheel.check.mapError .wheel

/-- The wheel with the seed of the session, if there is one. -/
def seededWheel (s : SessionSettings) : WheelSettings :=
  match s.seed with
  | some seed => s.wheel.withSeed seed
  | none => s.wheel

def toJson (s : SessionSettings) : Json :=
  .object [("level", .nat s.level), ("wheel", s.wheel.toJson), ("seed", seedJson s.seed)]

def ofJson? (j : Json) : Option SessionSettings := do
  match ← j.fields? ["level", "wheel", "seed"] true with
  | [level, wheel, seed] =>
    return ⟨← orStandard (natOfBits? 8) standard.level level,
      ← orStandard WheelSettings.ofJson? standard.wheel wheel,
      ← orStandard seedOfJson? standard.seed seed⟩
  | _ => none

def ofText (text : String) : Except SettingsError SessionSettings := do
  match (Json.parse? text).bind ofJson? with
  | none => .error .invalidJson
  | some s =>
    s.check
    return s

end SessionSettings

end LessonDeck
