import LessonDeck.Proofs.Machine.Range
/-!
# The journal keeps up with the variables

A command makes its last entry when nothing is left to be written: a statement after its write, a loop
after its last iteration and after its variable has been given back.  A fault is entered last of all.
So the last entry of a machine shows the variables as they are.
-/

namespace LessonDeck

theorem Variables.clamped_of_inRange {vars : Variables} (h : vars.InRange) :
    vars.clamped = vars := by
  refine ext_binding fun name ↦ ?_
  rw [binding_clamped]
  cases hbinding : vars.binding name with
  | none => rfl
  | some held =>
      cases held with
      | none => rfl
      | some v =>
          have hv : Value.InRange v := h name v (by rw [value?, hbinding]; rfl)
          rw [Option.map_some, Option.map_some, Value.clamp_of_inRange hv]

/-! ## Commands -/

/-- The last entry shows the variables as they are, and there is one. -/
def Progress.Recorded (p : Progress) : Prop :=
  ∃ e, p.journal.back? = some e ∧ e.snapshot = p.vars

namespace Progress

variable {p q : Progress} {who : Signature}

theorem recorded_record (p : Progress) (who : Signature) (kind : EntryKind)
    (action result : String) : (p.record who kind action result).Recorded :=
  ⟨_, Array.back?_push, rfl⟩

theorem recorded_of_effect {s : Simple} (h : s.Effect who p q) : q.Recorded := by
  cases h with
  | writes v result hs => exact recorded_record _ _ _ _ _
  | prints v result hs hv => exact recorded_record p who .info s.text result

end Progress

namespace Command

variable {p q : Progress} {who : Signature} {result : String × Flow}

theorem recorded_of_runWhileLoop {cap : ℕ} {c : Condition} {body : Simple}
    (h : runWhileLoop who cap c body p = (q, .ok result)) : q.Recorded := by
  rw [runWhileLoop] at h
  dsimp only at h
  split at h
  · simp at h
  · obtain ⟨rfl, -⟩ := Prod.mk.inj h
    split
    · exact Progress.recorded_record _ _ _ _ _
    · exact Progress.recorded_record _ _ _ _ _

theorem recorded_of_runForLoop {count : UInt32} {body : Simple}
    (h : runForLoop who count body p = (q, .ok result)) : q.Recorded := by
  rw [runForLoop] at h
  dsimp only at h
  split at h
  · simp at h
  · obtain ⟨rfl, -⟩ := Prod.mk.inj h
    exact Progress.recorded_record _ _ _ _ _

theorem recorded_of_run {cap : ℕ} {command : Command}
    (h : command.run who cap p = (q, .ok result)) : q.Recorded := by
  cases command with
  | simple s =>
      rw [run] at h
      split at h
      · next summary ran hrun =>
        obtain ⟨rfl, -⟩ := Prod.mk.inj h
        exact Progress.recorded_of_effect (Simple.effect_of_run hrun).2
      · simp at h
  | branch c onTrue onFalse =>
      rw [run] at h
      split at h
      · next summary flow ran hrun =>
        obtain ⟨rfl, -⟩ := Prod.mk.inj h
        obtain ⟨met, p', -, -, -, rfl⟩ := runBranch_eq_ok hrun
        exact Progress.recorded_record _ _ _ _ _
      · simp at h
  | whileLoop c body => exact recorded_of_runWhileLoop h
  | forLoop count body => exact recorded_of_runForLoop h

end Command

/-! ## Machines -/

namespace Machine

/-- The last entry of the journal shows the variables as they are; without an entry they are fresh.
That they are in range keeps a checkpoint from being clamped when it is taken over. -/
structure Recorded (m : Machine) : Prop where
  inRange : m.vars.InRange
  last : ∀ e, m.journal.back? = some e → e.snapshot = m.vars
  fresh : m.journal = #[] → m.vars = Variables.fresh

theorem recorded_new (cap : ℕ) : (new cap).Recorded :=
  ⟨Variables.inRange_fresh, fun _ he ↦ (nomatch he), fun _ ↦ rfl⟩

theorem recorded_of_back? {m : Machine} (hvars : m.vars.InRange)
    (h : ∃ e, m.journal.back? = some e ∧ e.snapshot = m.vars) : m.Recorded := by
  obtain ⟨e, hback, hsnapshot⟩ := h
  refine ⟨hvars, fun e' he' ↦ ?_, fun hempty ↦ ?_⟩
  · rw [← Option.some.inj (hback.symm.trans he'), hsnapshot]
  · rw [hempty] at hback
    exact nomatch hback

theorem recorded_log {m : Machine} (hvars : m.vars.InRange) (who : Signature) (kind : EntryKind)
    (action result : String) : (m.log who kind action result).Recorded :=
  recorded_of_back? hvars ⟨_, Array.back?_push, rfl⟩

namespace Recorded

variable {m : Machine}

theorem log (h : m.Recorded) (who : Signature) (kind : EntryKind) (action result : String) :
    (m.log who kind action result).Recorded :=
  recorded_log h.inRange who kind action result

theorem execute (h : m.Recorded) (who : Signature) (command : Command) :
    (m.execute who command).2.Recorded := by
  have hvars := ((inRange_of_vars h.inRange).execute who command).vars
  -- A command that ends well has made the last entry itself; a fault is entered behind it.
  rw [Machine.execute] at hvars ⊢
  split at hvars
  · next p summary flow hrun => exact recorded_of_back? hvars (Command.recorded_of_run hrun)
  · next p fault hrun =>
    exact recorded_log (m := ⟨p.vars, p.journal, m.cap⟩) hvars who .error command.text _

/-- Nothing is clamped when the checkpoint of another such machine is taken over. -/
theorem restore {other : Machine} (h : other.Recorded) (m : Machine) (time : Instant) :
    (m.restore (other.checkpoint time)).Recorded := by
  have hvars : (m.restore (other.checkpoint time)).vars = other.vars :=
    Variables.clamped_of_inRange h.inRange
  refine ⟨?_, fun e he ↦ ?_, fun hempty ↦ ?_⟩
  · rw [hvars]
    exact h.inRange
  · rw [hvars]
    exact h.last e he
  · rw [hvars]
    exact h.fresh hempty

end Recorded

end Machine

end LessonDeck
