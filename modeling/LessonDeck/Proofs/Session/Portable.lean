import LessonDeck.Proofs.Session.Separation
import LessonDeck.Proofs.Session.Truth
import LessonDeck.Proofs.Time.Instant
import LessonDeck.Proofs.Wheel.Counted
/-!
# What makes a session portable

A session can be told to another one if its variables are in range, the times in its journal are
times of the clock, and its wheel counts within words.  That is so from the start, and whatever is
asked of the session afterwards keeps it so, taking over the journal of a bundle included.
-/

namespace LessonDeck.Session

/-- The variables are in range, the times of all entries are times of the clock, and the wheel counts
within words. -/
structure Portable (s : Session) : Prop where
  vars : s.vars.InRange
  times : ∀ e ∈ s.journal.toList, e.time.OnClock
  wheel : s.wheel.Counted

/-- All times that come with an operation are times of the clock. -/
def Operation.OnClock : Operation → Prop
  | submit who _ => ∀ number, (who.clock number).OnClock
  | check _ => True
  | setLevel _ => True
  | setVariables clock _ => ∀ number, (clock number).OnClock
  | randomize time => time.OnClock
  | importBundle b => ∀ e ∈ b.journal.toList, e.time.OnClock
  | spin time => time.OnClock
  | forceColor time _ => time.OnClock
  | reset => True

variable {s : Session}

/-! ## Variables -/

theorem inRange_override {m : Machine} (h : m.vars.InRange) (clock : ℕ → Instant)
    (bindings : List Binding) : (bindings.foldl (override clock) m).vars.InRange := by
  induction bindings generalizing m with
  | nil => exact h
  | cons b bindings ih => exact ih (h.write b.1 b.2)

theorem vars_told (m : Machine) (who : Signature) (action : String)
    (result : Except (WheelError Float) SpinOutcome) : (told m who action result).vars = m.vars := by
  cases result <;> rfl

theorem inRange_perform (h : s.vars.InRange) (op : Operation) :
    (s.perform op).2.vars.InRange := by
  cases op with
  | submit who cards =>
      simp only [perform, submit]
      split
      · exact h
      · next parsed hparsed =>
        exact ((Machine.inRange_of_vars h).execute who parsed.command).vars
  | check cards => exact h
  | setLevel level =>
      change (s.setLevel level).2.vars.InRange
      rwa [vars_setLevel]
  | setVariables clock vars => exact inRange_override h clock vars.entries
  | randomize time => exact h.write _ _
  | importBundle b => exact Variables.inRange_clamped b.vars
  | spin time =>
      simp only [perform, spin_eq, Session.vars, vars_told]
      exact h
  | forceColor time name =>
      simp only [perform, forceColor_eq, Session.vars, vars_told]
      exact h
  | reset => exact Variables.inRange_fresh

/-! ## Times -/

/-- Entries whose times the clock of an operation shows come behind those that were there. -/
theorem times_append {base after : Array Entry} (h : ∀ e ∈ base.toList, e.time.OnClock)
    {clock : ℕ → Instant} (hclock : ∀ number, (clock number).OnClock) {own : List Entry}
    (hafter : after.toList = base.toList ++ own)
    (hown : ∀ e ∈ own, ∃ number, e.time = clock number) : ∀ e ∈ after.toList, e.time.OnClock := by
  rw [hafter, List.forall_mem_append]
  refine ⟨h, fun e he ↦ ?_⟩
  obtain ⟨number, htime⟩ := hown e he
  exact htime ▸ hclock number

theorem times_log {m : Machine} (h : ∀ e ∈ m.journal.toList, e.time.OnClock) {time : Instant}
    (htime : time.OnClock) (actor : String) (kind : EntryKind) (action result : String) :
    ∀ e ∈ (m.log (.once actor time) kind action result).journal.toList, e.time.OnClock :=
  times_append h (fun _ ↦ htime) Array.toList_push (List.forall_mem_singleton.mpr ⟨0, rfl⟩)

theorem times_told {m : Machine} (h : ∀ e ∈ m.journal.toList, e.time.OnClock) {time : Instant}
    (htime : time.OnClock) (actor action : String)
    (result : Except (WheelError Float) SpinOutcome) :
    ∀ e ∈ (told m (.once actor time) action result).journal.toList, e.time.OnClock := by
  cases result with
  | error e => exact h
  | ok outcome => exact times_log h htime _ _ _ _

theorem times_submit (h : ∀ e ∈ s.journal.toList, e.time.OnClock) {who : Signature}
    (hclock : ∀ number, (who.clock number).OnClock) (cards : List Card) :
    ∀ e ∈ (s.submit who cards).2.journal.toList, e.time.OnClock := by
  obtain ⟨own, hjournal, hown⟩ := s.exists_own_of_submit who cards
  refine times_append h hclock hjournal fun e he ↦ ?_
  obtain rfl | ⟨parsed, hparsed, ⟨flow, hchronicle⟩ | ⟨vars, fault, rfl⟩⟩ := hown
  · exact nomatch he
  · exact (hchronicle.signed he).2
  · obtain rfl := List.mem_singleton.mp he
    exact ⟨s.journal.size, rfl⟩

theorem times_setVariables (h : ∀ e ∈ s.journal.toList, e.time.OnClock) {clock : ℕ → Instant}
    (hclock : ∀ number, (clock number).OnClock) (vars : Variables) :
    ∀ e ∈ (s.setVariables clock vars).journal.toList, e.time.OnClock := by
  obtain ⟨own, hjournal, hown⟩ := exists_own_of_override clock vars.entries s.machine
  refine times_append h hclock hjournal fun e he ↦ ?_
  obtain ⟨b, number, -, rfl⟩ := exists_overrides_of_mem hown he
  exact ⟨number, rfl⟩

theorem times_perform (h : ∀ e ∈ s.journal.toList, e.time.OnClock) {op : Operation}
    (hop : op.OnClock) : ∀ e ∈ (s.perform op).2.journal.toList, e.time.OnClock := by
  cases op with
  | submit who cards => exact times_submit h hop cards
  | check cards => exact h
  | setLevel level =>
      change ∀ e ∈ (s.setLevel level).2.journal.toList, e.time.OnClock
      rwa [journal_setLevel]
  | setVariables clock vars => exact times_setVariables h hop vars
  | randomize time =>
      exact times_log (m := { s.machine with vars := (s.randomize time).2.vars }) h hop _ _ _ _
  | importBundle b => exact hop
  | spin time =>
      simp only [perform, spin_eq]
      exact times_told h hop _ _ _
  | forceColor time name =>
      simp only [perform, forceColor_eq]
      exact times_told h hop _ _ _
  | reset => exact List.forall_mem_nil _

/-! ## The wheel -/

theorem counted_perform (h : s.wheel.Counted) (op : Operation) :
    (s.perform op).2.wheel.Counted := by
  cases hop : op.atTable with
  | true =>
      have hsame : (s.perform op).2.wheel = s.wheel :=
        congrArg Prod.fst (wheelSide_perform_of_atTable hop s)
      rwa [hsame]
  | false =>
      cases op with
      | spin time =>
          simp only [perform, spin_eq]
          exact h.spin s.wheelDraws
      | forceColor time name =>
          simp only [perform, forceColor_eq]
          exact h.forceNamed name
      | reset => exact h.reset
      | _ => simp [Operation.atTable] at hop

/-! ## A whole run -/

namespace Portable

theorem create {settings : SessionSettings} {otherSeed : UInt64} {s : Session}
    (h : Session.create settings otherSeed = .ok s) (hwords : settings.wheel.InWords) :
    s.Portable := by
  have hmachine := machine_of_create h
  constructor
  · rw [Session.vars, hmachine]
    exact Variables.inRange_fresh
  · rw [Session.journal, hmachine]
    exact List.forall_mem_nil _
  · exact .create (wheel_of_create h) (SessionSettings.inWords_seededWheel hwords)

theorem perform (h : s.Portable) {op : Operation} (hop : op.OnClock) : (s.perform op).2.Portable :=
  ⟨inRange_perform h.vars op, times_perform h.times hop, counted_perform h.wheel op⟩

theorem performAll (h : s.Portable) {ops : List Operation} (hops : ∀ op ∈ ops, op.OnClock) :
    (s.performAll ops).Portable := by
  induction ops generalizing s with
  | nil => exact h
  | cons op ops ih =>
      obtain ⟨hop, hrest⟩ := List.forall_mem_cons.mp hops
      exact ih (h.perform hop) hrest

end Portable

end LessonDeck.Session
