import LessonDeck.Proofs.Machine.Recorded
import LessonDeck.Proofs.Result
import LessonDeck.Proofs.Session.Run
/-!
# The states of a session

A session begins with accepted settings and goes on by its operations, refused ones included, which
change nothing.  Checking cards is not among them: it gives no session at all.  What a session takes
over is what a session has exported, another one perhaps.  Whatever the order, the last entry of the
journal shows the variables as they are.
-/

namespace LessonDeck

namespace Session

/-- The states that sessions can come to. -/
inductive Reachable : Session → Prop where
  | create {settings : SessionSettings} {otherSeed : UInt64} {s : Session}
      (h : create settings otherSeed = .ok s) : Reachable s
  | submit {s : Session} (hs : Reachable s) (who : Signature) (cards : List Card) :
      Reachable (s.submit who cards).2
  | spin {s : Session} (hs : Reachable s) (time : Instant) : Reachable (s.spin time).2
  | forceColor {s : Session} (hs : Reachable s) (time : Instant) (name : String) :
      Reachable (s.forceColor time name).2
  | setLevel {s : Session} (hs : Reachable s) (level : ℕ) : Reachable (s.setLevel level).2
  | setVariables {s : Session} (hs : Reachable s) (clock : ℕ → Instant) (vars : Variables) :
      Reachable (s.setVariables clock vars)
  | randomize {s : Session} (hs : Reachable s) (time : Instant) : Reachable (s.randomize time).2
  | reset {s : Session} (hs : Reachable s) : Reachable s.reset
  | importBundle {s t : Session} (hs : Reachable s) (ht : Reachable t) (time : Instant) :
      Reachable (s.importBundle (t.exportBundle time))

variable {s : Session}

/-! ## The machine and the wheel behind a session -/

theorem machine_of_create {settings : SessionSettings} {otherSeed : UInt64}
    (h : create settings otherSeed = .ok s) : s.machine = Machine.new defaultCap := by
  rw [create] at h
  obtain ⟨-, -, hrest⟩ := exists_of_bind_eq_ok h
  obtain ⟨wheel, -, hs⟩ := exists_of_bind_eq_ok hrest
  rw [← Except.ok.inj hs]

theorem wheel_of_create {settings : SessionSettings} {otherSeed : UInt64}
    (h : create settings otherSeed = .ok s) :
    SessionWheel.create settings.seededWheel = .ok s.wheel := by
  rw [create] at h
  obtain ⟨-, -, hrest⟩ := exists_of_bind_eq_ok h
  obtain ⟨wheel, hwheel, hs⟩ := exists_of_bind_eq_ok hrest
  rw [← Except.ok.inj hs]
  exact mapError_eq_ok_iff.mp hwheel

theorem machine_setLevel (s : Session) (level : ℕ) : (s.setLevel level).2.machine = s.machine := by
  rw [setLevel]
  cases checkLevel level <;> rfl

theorem vars_setLevel (s : Session) (level : ℕ) : (s.setLevel level).2.vars = s.vars :=
  congrArg Machine.vars (s.machine_setLevel level)

theorem journal_setLevel (s : Session) (level : ℕ) : (s.setLevel level).2.journal = s.journal :=
  congrArg Machine.journal (s.machine_setLevel level)

/-! ## One step -/

theorem recorded_submit (h : s.machine.Recorded) (who : Signature) (cards : List Card) :
    (s.submit who cards).2.machine.Recorded := by
  rw [submit]
  split
  · exact h
  · next parsed hparsed => exact h.execute who parsed.command

theorem recorded_told {m : Machine} (h : m.Recorded) (who : Signature) (action : String)
    (result : Except (WheelError Float) SpinOutcome) : (told m who action result).Recorded := by
  cases result with
  | error e => exact h
  | ok outcome => exact h.log _ _ _ _

theorem recorded_spin (h : s.machine.Recorded) (time : Instant) :
    (s.spin time).2.machine.Recorded := by
  rw [spin_eq]
  exact recorded_told h _ _ _

theorem recorded_forceColor (h : s.machine.Recorded) (time : Instant) (name : String) :
    (s.forceColor time name).2.machine.Recorded := by
  rw [forceColor_eq]
  exact recorded_told h _ _ _

theorem recorded_override {m : Machine} (h : m.Recorded) (clock : ℕ → Instant) (b : Binding) :
    (override clock m b).Recorded := by
  have hwritten := h.inRange.write b.1 b.2
  exact Machine.recorded_log (m := { m with vars := m.vars.write b.1 b.2 }) hwritten _ _ _ _

theorem recorded_setVariables (h : s.machine.Recorded) (clock : ℕ → Instant) (vars : Variables) :
    (s.setVariables clock vars).machine.Recorded := by
  -- Each write has its own entry, so the invariant holds between any two of them.
  have hfold : ∀ (bindings : List Binding) (m : Machine), m.Recorded →
      (bindings.foldl (override clock) m).Recorded := by
    intro bindings
    induction bindings with
    | nil => exact fun m hm ↦ hm
    | cons b bindings ih => exact fun m hm ↦ ih _ (recorded_override hm clock b)
  exact hfold vars.entries s.machine h

theorem recorded_randomize (h : s.machine.Recorded) (time : Instant) :
    (s.randomize time).2.machine.Recorded := by
  have hwritten := h.inRange.write Variables.initialName
  exact Machine.recorded_log (hwritten _) _ _ _ _

/-! ## A whole run -/

theorem Reachable.recorded (h : Reachable s) : s.machine.Recorded := by
  induction h with
  | create h =>
      rw [machine_of_create h]
      exact Machine.recorded_new defaultCap
  | submit hs who cards ih => exact recorded_submit ih who cards
  | spin hs time ih => exact recorded_spin ih time
  | forceColor hs time name ih => exact recorded_forceColor ih time name
  | @setLevel s hs level ih =>
      rw [machine_setLevel]
      exact ih
  | setVariables hs clock vars ih => exact recorded_setVariables ih clock vars
  | randomize hs time ih => exact recorded_randomize ih time
  | reset hs ih => exact Machine.recorded_new _
  | importBundle hs ht time ihs iht => exact iht.restore _ time

/-- In every state that a session can come to, the last entry of the journal shows the variables as
they are, and as long as the journal is empty there is one variable, uninitialized. -/
theorem snapshot_last_of_reachable (h : Reachable s) :
    (∀ e, s.journal.back? = some e → e.snapshot = s.vars) ∧
    (s.journal = #[] → s.vars.entries = [("global_1", none)]) := by
  have hrecorded := h.recorded
  refine ⟨hrecorded.last, fun hempty ↦ ?_⟩
  rw [vars, hrecorded.fresh hempty]
  rfl

/-- A loop that stops in its first round, with `i` bound anew, and a session that takes this over. -/
theorem snapshot_last_of_reachable_forLoop :
    let cards : List Card := [.deal .forLoop "for i = 1 to 2", .deal .loop "do",
      .deal .assign "x =", .deal .varref "global_1", .deal .operator "+", .deal .number "1",
      .deal .loop "end"]
    ∃ s other e, create SessionSettings.standard 7 = .ok s ∧ s.setLevel 4 = (.ok (), other) ∧
      let after := s.importBundle ((other.submit (.once "g1" .epoch) cards).2.exportBundle .epoch)
      after.journal.back? = some e ∧
        e.result = "Error: variable 'global_1' is not initialized" ∧ e.snapshot = after.vars := by
  intro cards
  have hcreate : (create SessionSettings.standard 7).isOk = true := by decide +kernel
  have hcards : ParsedCommand.ofCards 4 cards =
      .ok ⟨.forLoop 2 (.compute "x" "global_1" .add 1),
        "for i = 1 to 2 do x = global_1 + 1 end"⟩ := by decide +kernel
  cases hs : create SessionSettings.standard 7 with
  | error e =>
      rw [hs] at hcreate
      exact nomatch hcreate
  | ok s =>
      have hother : s.setLevel 4 = (.ok (), { s with level := 4 }) := rfl
      have hreachable := ((Reachable.create hs).importBundle
        (((Reachable.create hs).setLevel 4).submit (.once "g1" .epoch) cards) .epoch)
      have hsubmit : (submit { s with level := 4 } (.once "g1" .epoch) cards).2.machine =
          ((Machine.new defaultCap).execute (.once "g1" .epoch)
            (.forLoop 2 (.compute "x" "global_1" .add 1))).2 := by
        rw [submit, check, hcards, ← machine_of_create hs]
      obtain ⟨e, hback, hresult⟩ : ∃ e, (submit { s with level := 4 } (.once "g1" .epoch)
          cards).2.machine.journal.back? = some e ∧
            e.result = "Error: variable 'global_1' is not initialized" := by
        rw [hsubmit]
        exact ⟨_, rfl, rfl⟩
      exact ⟨s, _, e, rfl, hother, hback, hresult,
        (snapshot_last_of_reachable hreachable).1 e hback⟩

end Session

end LessonDeck
