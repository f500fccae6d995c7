import LessonDeck.Proofs.Campaign.Reachable
import LessonDeck.Proofs.Result
import LessonDeck.Proofs.Session.Run
import LessonDeck.Session.Desk
/-!
# Refused calls

A reply refuses a call if it says that there was no success, or that cards are not valid.  A
refused call leaves the session as it was, the sources of draws included: at each layer an error
stands beside a state, and this state is the one from before, since no draw is taken and nothing is
written down before the last check.  So the calls that were refused can be deleted from what is said
at the desk: the others get the same replies.

A command that is stopped by a fault is not refused: its cards are valid, and the fault has an entry
in the journal.
-/

namespace LessonDeck

/-! ## Errors and the state beside them -/

theorem AdaptiveWheel.of_forceNamed_eq_error {α : Type} [Scalar α] {w after : AdaptiveWheel α}
    {name : String} {e : WheelError α} (h : w.forceNamed name = (.error e, after)) :
    after = w := by
  rw [forceNamed] at h
  cases hname : Color.recognize name with
  | error unknown =>
      rw [hname] at h
      exact (Prod.mk.inj h).2.symm
  | ok c => simp [hname] at h

namespace SessionWheel

variable {w after : SessionWheel} {e : WheelError Float}

theorem of_spin_eq_error {draws left : Draw.Source} (h : w.spin draws = (.error e, after, left)) :
    after = w ∧ left = draws := by
  cases w with
  | adaptive w => simp [spin] at h
  | campaign w =>
      obtain ⟨hresult, hleft⟩ := Prod.mk.inj h
      obtain ⟨rfl, rfl⟩ := Prod.mk.inj hleft
      have hspun : (w.spinFrom Draw.Source.nextUnit draws).1 = .error e :=
        map_eq_error_iff.mp hresult
      obtain ⟨hsame, hdraws⟩ := Campaign.of_spinFrom_eq_error (Prod.ext hspun rfl)
      exact ⟨congrArg campaign hsame, hdraws⟩

theorem of_forceNamed_eq_error {name : String} (h : w.forceNamed name = (.error e, after)) :
    after = w := by
  cases w with
  | adaptive w =>
      obtain ⟨hresult, rfl⟩ := Prod.mk.inj h
      have hforced : (w.forceNamed name).1 = .error e := map_eq_error_iff.mp hresult
      exact congrArg adaptive (AdaptiveWheel.of_forceNamed_eq_error (Prod.ext hforced rfl))
  | campaign w =>
      obtain ⟨hresult, rfl⟩ := Prod.mk.inj h
      have hforced : (w.forceNamed name).1 = .error e := map_eq_error_iff.mp hresult
      exact congrArg campaign (Campaign.of_forceNamed_eq_error (Prod.ext hforced rfl))

end SessionWheel

namespace Session

variable {s after : Session} {time : Instant}

/-- Cards that form no command are not executed.  A command with a fault is no error here. -/
theorem of_submit_eq_error {who : Signature} {cards : List Card} {e : CommandError}
    (h : s.submit who cards = (.error e, after)) : after = s := by
  rw [submit] at h
  cases hparsed : s.check cards with
  | error e' =>
      rw [hparsed] at h
      exact (Prod.mk.inj h).2.symm
  | ok parsed => simp [hparsed] at h

theorem of_spin_eq_error {e : WheelError Float} (h : s.spin time = (.error e, after)) :
    after = s := by
  rw [spin_eq] at h
  rcases hspun : s.wheel.spin s.wheelDraws with ⟨result, wheel, draws⟩
  simp only [hspun] at h
  obtain ⟨rfl, rfl⟩ := Prod.mk.inj h
  obtain ⟨rfl, rfl⟩ := SessionWheel.of_spin_eq_error hspun
  rfl

theorem of_forceColor_eq_error {name : String} {e : WheelError Float}
    (h : s.forceColor time name = (.error e, after)) : after = s := by
  rw [forceColor_eq] at h
  rcases hforced : s.wheel.forceNamed name with ⟨result, wheel⟩
  simp only [hforced] at h
  obtain ⟨rfl, rfl⟩ := Prod.mk.inj h
  obtain rfl := SessionWheel.of_forceNamed_eq_error hforced
  rfl

theorem of_setLevel_eq_error {level : ℕ} {e : SettingsError}
    (h : s.setLevel level = (.error e, after)) : after = s := by
  rw [setLevel] at h
  cases hlevel : checkLevel level with
  | error e' =>
      rw [hlevel] at h
      exact (Prod.mk.inj h).2.symm
  | ok _ => simp [hlevel] at h

end Session

namespace Json

def isFalse : Json → Bool
  | bool b => !b
  | _ => false

/-- Whether a value is a record that says no to something. -/
def denies (what : String) : Json → Bool
  | object members => members.any fun m ↦ m.1 == what && m.2.isFalse
  | _ => false

end Json

namespace Desk

/-! ## What is said at the desk -/

inductive Call where
  | submit (who : Signature) (cards : String)
  | check (cards : String)
  | spin (time : Instant)
  | forceColor (time : Instant) (name : String)
  | wheelStats
  | setLevel (level : ℕ)
  | setVariables (clock : ℕ → Instant) (vars : String)
  | randomizeGlobal (time : Instant)
  | vars
  | journal
  | reset
  | exportState (time : Instant)
  | importState (bundle : String)

def answer (s : Session) : Call → Reply × Session
  | .submit who cards => submit s who cards
  | .check cards => (check s cards, s)
  | .spin time => spin s time
  | .forceColor time name => forceColor s time name
  | .wheelStats => (wheelStats s, s)
  | .setLevel level => setLevel s level
  | .setVariables clock text => setVariables s clock text
  | .randomizeGlobal time => randomizeGlobal s time
  | .vars => (vars s, s)
  | .journal => (journal s, s)
  | .reset => reset s
  | .exportState time => (exportState s time, s)
  | .importState bundle => importState s bundle

/-- The calls of a run, each with the reply to it. -/
def dialogue (s : Session) : List Call → List (Call × Reply)
  | [] => []
  | call :: calls => (call, (answer s call).1) :: dialogue (answer s call).2 calls

def answerAll (s : Session) (calls : List Call) : Session :=
  calls.foldl (fun s call ↦ (answer s call).2) s

/-! ## Refusals -/

namespace Reply

def refuses (r : Reply) : Bool :=
  r.toJson.denies "success" || r.toJson.denies "valid"

@[simp] theorem refuses_done : done.refuses = false := by
  decide

@[simp] theorem refuses_value (n : Int64) : (value n).refuses = false := by
  simp [refuses, toJson, Json.denies, Json.isFalse]

theorem refuses_data (j : Json) : (data j).refuses = (j.denies "success" || j.denies "valid") :=
  rfl

@[simp] theorem refuses_ofSpin_ok (outcome : SpinOutcome) :
    (ofSpin (.ok outcome)).refuses = false := by
  rw [ofSpin, refuses_data]
  cases outcome with
  | adaptive spin => simp [SpinOutcome.toJson, AdaptiveSpin.toJson, Json.denies]
  | forced spin => simp [SpinOutcome.toJson, ForcedSpin.toJson, Json.denies]
  | campaign spin =>
      obtain ⟨color, reason, round, draw⟩ := spin
      cases draw <;>
        simp [SpinOutcome.toJson, CampaignSpin.toJson, Json.denies, Json.member?]

/-- Cards that form a command are not refused, whatever comes of it. -/
@[simp] theorem refuses_reportJson_ok (parsed : ParsedCommand) (result : Except Fault Outcome) :
    (data (Submission.reportJson (.ok (parsed, result)))).refuses = false := by
  rw [refuses_data]
  simp [Submission.reportJson, Json.denies, Json.isFalse]

end Reply

theorem answer_of_refuses {s : Session} {call : Call} (h : (answer s call).1.refuses = true) :
    (answer s call).2 = s := by
  cases call with
  | submit who cards =>
      simp only [answer, submit] at h ⊢
      cases hrow : Card.rowOfText? cards with
      | none => rfl
      | some row =>
          rcases hsubmit : s.submit who row with ⟨e | ⟨parsed, result⟩, after⟩
          · simp only [hsubmit]
            exact Session.of_submit_eq_error hsubmit
          · simp [hrow, hsubmit] at h
  | spin time =>
      simp only [answer, spin] at h ⊢
      rcases hspin : s.spin time with ⟨e | outcome, after⟩
      · exact Session.of_spin_eq_error hspin
      · simp [hspin] at h
  | forceColor time name =>
      simp only [answer, forceColor] at h ⊢
      rcases hforce : s.forceColor time name with ⟨e | outcome, after⟩
      · exact Session.of_forceColor_eq_error hforce
      · simp [hforce] at h
  | setLevel level =>
      simp only [answer, setLevel] at h ⊢
      rcases hlevel : s.setLevel level with ⟨e | done, after⟩
      · exact Session.of_setLevel_eq_error hlevel
      · simp [hlevel] at h
  | setVariables clock text =>
      simp only [answer, setVariables] at h ⊢
      cases hvars : Variables.ofText? text with
      | none => rfl
      | some vars => simp [hvars] at h
  | importState text =>
      simp only [answer, importState] at h ⊢
      cases hbundle : Bundle.ofText? text with
      | none => rfl
      | some b => simp [hbundle] at h
  | randomizeGlobal time => simp [answer, randomizeGlobal] at h
  | reset => simp [answer, reset] at h
  | check cards => rfl
  | wheelStats => rfl
  | vars => rfl
  | journal => rfl
  | exportState time => rfl

def accepted (s : Session) (calls : List Call) : List Call :=
  ((dialogue s calls).filter (!·.2.refuses)).map Prod.fst

theorem dialogue_accepted (s : Session) (calls : List Call) :
    dialogue s (accepted s calls) = (dialogue s calls).filter (!·.2.refuses) ∧
      answerAll s (accepted s calls) = answerAll s calls := by
  induction calls generalizing s with
  | nil => exact ⟨rfl, rfl⟩
  | cons call calls ih =>
      obtain ⟨hdialogue, hafter⟩ := ih (answer s call).2
      cases hreply : (answer s call).1.refuses with
      | true =>
          have hsame : (answer s call).2 = s := answer_of_refuses hreply
          have hfilter : (dialogue s (call :: calls)).filter (!·.2.refuses) =
              (dialogue s calls).filter (!·.2.refuses) := by
            rw [dialogue, List.filter_cons_of_neg (by simp [hreply]), hsame]
          rw [hsame] at hdialogue hafter
          rw [accepted, hfilter]
          exact ⟨hdialogue, hafter.trans (by simp only [answerAll, List.foldl_cons, hsame])⟩
      | false =>
          have hfilter : (dialogue s (call :: calls)).filter (!·.2.refuses) =
              (call, (answer s call).1) ::
                (dialogue (answer s call).2 calls).filter (!·.2.refuses) := by
            rw [dialogue, List.filter_cons_of_pos (by simp [hreply])]
          rw [accepted, hfilter]
          exact ⟨congrArg _ hdialogue, hafter⟩

/-- A refused call leaves the session as it was, and without the refused calls of a run the others
get the same replies and leave the same session. -/
theorem refused_calls_leave_no_trace (s : Session) :
    (∀ call, (answer s call).1.refuses = true → (answer s call).2 = s) ∧
      ∀ calls, dialogue s (accepted s calls) = (dialogue s calls).filter (!·.2.refuses) ∧
        answerAll s (accepted s calls) = answerAll s calls :=
  ⟨fun _ h ↦ answer_of_refuses h, dialogue_accepted s⟩

/-- A campaign at its end is neither spun nor set by hand, and there is no level nine. -/
theorem refused_calls_leave_no_trace_finished :
    let s : Session := ⟨1, Machine.new defaultCap,
      .campaign { Campaign.ofSettings .standard with round := 15 }, .ofSeed 7 0, .ofSeed 7 1⟩
    let calls : List Call := [.spin .epoch, .forceColor .epoch "green", .setLevel 9, .setLevel 2]
    (answer s (.spin .epoch)).1.refuses = true ∧ (answer s (.spin .epoch)).2 = s ∧
      accepted s calls = [.setLevel 2] ∧
      dialogue s [.setLevel 2] = (dialogue s calls).filter (!·.2.refuses) := by
  intro s calls
  have hspin : (answer s (.spin .epoch)).1.refuses = true := by decide +kernel
  have haccepted : accepted s calls = [.setLevel 2] := by rfl
  obtain ⟨hsame, hrun⟩ := refused_calls_leave_no_trace s
  have hdialogue := (hrun calls).1
  rw [haccepted] at hdialogue
  exact ⟨hspin, hsame (.spin .epoch) hspin, haccepted, hdialogue⟩

end Desk

end LessonDeck
