import Mathlib
import LessonDeck.Session.Basic
/-!
# Runs of a session

What can be asked of a session, as data, with the answer to it.  A run asks one thing after
another; its transcript keeps each answer beside what was asked.  A turn of the wheel leaves the
table alone but for the entry that tells what came up.  The entries that a run adds to the journal
are those behind what a reset or a bundle may have put in its place.
-/

namespace LessonDeck.Session

inductive Operation where
  | submit (who : Signature) (cards : List Card)
  | check (cards : List Card)
  | setLevel (level : ℕ)
  | setVariables (clock : ℕ → Instant) (vars : Variables)
  | randomize (time : Instant)
  | importBundle (b : Bundle)
  | spin (time : Instant)
  | forceColor (time : Instant) (name : String)
  | reset

inductive Answer where
  | submission (result : Submission)
  | report (result : Except CommandError ParsedCommand)
  | level (result : Except SettingsError Unit)
  | drawn (value : Int64)
  | spun (result : Except (WheelError Float) SpinOutcome)
  | done

/-- What an operation answers, and the session after it. -/
def perform (s : Session) : Operation → Answer × Session
  | .submit who cards =>
    let (result, s) := s.submit who cards
    (.submission result, s)
  | .check cards => (.report (s.check cards), s)
  | .setLevel level =>
    let (result, s) := s.setLevel level
    (.level result, s)
  | .setVariables clock vars => (.done, s.setVariables clock vars)
  | .randomize time =>
    let (value, s) := s.randomize time
    (.drawn value, s)
  | .importBundle b => (.done, s.importBundle b)
  | .spin time =>
    let (result, s) := s.spin time
    (.spun result, s)
  | .forceColor time name =>
    let (result, s) := s.forceColor time name
    (.spun result, s)
  | .reset => (.done, s.reset)

def performAll (s : Session) (ops : List Operation) : Session :=
  ops.foldl (fun s op ↦ (s.perform op).2) s

/-- What was asked in a run, each with its answer. -/
def transcript (s : Session) : List Operation → List (Operation × Answer)
  | [] => []
  | op :: ops => (op, (s.perform op).1) :: (s.perform op).2.transcript ops

/-! ## Turns of the wheel -/

/-- The machine once the journal has been told what came of a turn of the wheel, which makes no entry
if it was refused. -/
def told (m : Machine) (who : Signature) (action : String) :
    Except (WheelError Float) SpinOutcome → Machine
  | .error _ => m
  | .ok outcome => m.log who .info action outcome.text

theorem spin_eq (s : Session) (time : Instant) :
    s.spin time =
      let (result, wheel, draws) := s.wheel.spin s.wheelDraws
      let machine := told s.machine (.once spinActor time) "wheel spun" result
      (result, { s with wheel := wheel, wheelDraws := draws, machine := machine }) := by
  rw [spin]
  obtain ⟨_ | outcome, wheel, draws⟩ := s.wheel.spin s.wheelDraws <;> rfl

theorem forceColor_eq (s : Session) (time : Instant) (name : String) :
    s.forceColor time name =
      let (result, wheel) := s.wheel.forceNamed name
      let machine := told s.machine (.once teacherActor time) "color forced" result
      (result, { s with wheel := wheel, machine := machine }) := by
  rw [forceColor]
  obtain ⟨_ | outcome, wheel⟩ := s.wheel.forceNamed name <;> rfl

/-! ## Entries -/

/-- The part of the journal that an operation does not make: what was there, nothing after a reset,
or the journal of a bundle. -/
def Operation.inherited (base : Array Entry) : Operation → Array Entry
  | reset => #[]
  | importBundle b => b.journal
  | _ => base

def entered (s : Session) (op : Operation) : List Entry :=
  (s.perform op).2.journal.toList.drop (op.inherited s.journal).size

def enteredAll (s : Session) : List Operation → List Entry
  | [] => []
  | op :: ops => s.entered op ++ (s.perform op).2.enteredAll ops

theorem entered_eq {s : Session} {op : Operation} {own : List Entry}
    (h : (s.perform op).2.journal.toList = (op.inherited s.journal).toList ++ own) :
    s.entered op = own := by
  rw [entered, h, ← Array.length_toList, List.drop_left]

end LessonDeck.Session
