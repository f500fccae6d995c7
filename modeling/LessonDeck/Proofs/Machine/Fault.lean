import LessonDeck.Proofs.Machine.Control
/-!
# Faults

A loop keeps what it did before a fault, yet no fault of a command leaves a trace but its own entry.
For a loop that gets through one iteration gets through all of them: what was initialized stays so,
and the divisor of a body is a literal.
-/

namespace LessonDeck

/-- Neither the condition nor the body of a `while` loop has a fault. -/
def Ready (c : Condition) (body : Simple) (vars : Variables) : Prop :=
  c.fault? vars = none ∧ body.fault? vars = none

theorem Ready.of_initialized {c : Condition} {body : Simple} {vars vars' : Variables}
    (h : Ready c body vars) (hmore : ∀ name, vars.Initialized name → vars'.Initialized name) :
    Ready c body vars' :=
  ⟨Condition.fault?_eq_none_of_initialized hmore h.1,
    Simple.fault?_eq_none_of_initialized hmore h.2⟩

/-! ## Loops without a fault at the start have none later -/

theorem runWhile_of_ready (who : Signature) {c : Condition} {body : Simple} (left done : ℕ)
    {p : Progress} (h : Ready c body p.vars) :
    ∃ maxReached, (runWhile who c body left done p).ending = .ok maxReached := by
  induction left generalizing done p with
  | zero =>
      obtain ⟨b, hb⟩ := Condition.holds_of_no_fault h.1
      cases b with
      | false => exact ⟨false, by rw [runWhile_of_false hb]⟩
      | true => exact ⟨true, by rw [runWhile_zero hb]⟩
  | succ left ih =>
      obtain ⟨b, hb⟩ := Condition.holds_of_no_fault h.1
      cases b with
      | false => exact ⟨false, by rw [runWhile_of_false hb]⟩
      | true =>
          obtain ⟨summary, q, hrun, heffect⟩ := Simple.run_of_no_fault who h.2
          rw [runWhile_succ_of_ok hb hrun]
          exact ih (done + 1) (h.of_initialized fun _ ↦ heffect.initialized)

/-- A `while` loop that ends with a fault has not done anything. -/
theorem runWhile_of_fault {who : Signature} {c : Condition} {body : Simple} {left done : ℕ}
    {p : Progress} {fault : Fault} (h : (runWhile who c body left done p).ending = .error fault) :
    (runWhile who c body left done p).progress = p := by
  cases hc : c.fault? p.vars with
  | some other => rw [runWhile_of_error (Condition.holds_of_fault hc)]
  | none =>
      cases hbody : body.fault? p.vars with
      | none =>
          obtain ⟨maxReached, hok⟩ := runWhile_of_ready who left done ⟨hc, hbody⟩
          exact nomatch hok.symm.trans h
      | some other =>
          obtain ⟨b, hb⟩ := Condition.holds_of_no_fault hc
          cases b with
          | false => rw [runWhile_of_false hb]
          | true =>
              cases left with
              | zero => rw [runWhile_zero hb]
              | succ left => rw [runWhile_succ_of_error hb (Simple.run_of_fault who hbody)]

theorem runFor_of_no_fault (who : Signature) {body : Simple} (left i : ℕ) {p : Progress}
    (h : body.fault? (p.count i).vars = none) : (runFor who body left i p).2 = .ok () := by
  induction left generalizing i p with
  | zero => rfl
  | succ left ih =>
      obtain ⟨summary, q, hrun, heffect⟩ := Simple.run_of_no_fault who h
      rw [runFor_succ_of_ok hrun]
      refine ih (i + 1) (Simple.fault?_eq_none_of_initialized (fun name hname ↦ ?_) h)
      exact (heffect.initialized hname).write loopName _

/-- A `for` loop that ends with a fault has only bound its variable. -/
theorem runFor_of_fault {who : Signature} {body : Simple} {left i : ℕ} {p : Progress}
    {fault : Fault} (h : (runFor who body left i p).2 = .error fault) :
    (runFor who body left i p).1 = p.count i := by
  cases left with
  | zero => exact nomatch h
  | succ left =>
      cases hbody : body.fault? (p.count i).vars with
      | none => exact nomatch (runFor_of_no_fault who (left + 1) i hbody).symm.trans h
      | some other => rw [runFor_succ_of_error (Simple.run_of_fault who hbody)]

/-! ## Commands -/

namespace Command

theorem runBranch_of_fault {who : Signature} {c : Condition} {onTrue : Simple}
    {onFalse : Option Simple} {p : Progress} {fault : Fault} {cap : ℕ} {q : Progress}
    (h : (branch c onTrue onFalse).run who cap p = (q, .error fault)) : q = p := by
  rw [run] at h
  split at h
  · simp at h
  · exact (Prod.mk.inj h).1.symm

theorem runWhileLoop_of_fault {who : Signature} {cap : ℕ} {c : Condition} {body : Simple}
    {p q : Progress} {fault : Fault} (h : runWhileLoop who cap c body p = (q, .error fault)) :
    q = p := by
  rw [runWhileLoop] at h
  dsimp only at h
  split at h
  · next other hending =>
    rw [← runWhile_of_fault hending]
    exact (Prod.mk.inj h).1.symm
  · simp at h

theorem runForLoop_of_fault {who : Signature} {count : UInt32} {body : Simple}
    {p q : Progress} {fault : Fault} (h : runForLoop who count body p = (q, .error fault)) :
    q.vars = p.vars ∧ q.journal = p.journal := by
  rw [runForLoop] at h
  dsimp only at h
  split at h
  · next other hending =>
    rw [runFor_of_fault hending] at h
    rw [← (Prod.mk.inj h).1]
    exact ⟨Variables.restore_write p.vars loopName _, rfl⟩
  · simp at h

/-- A command that ends with a fault leaves the variables and the journal as they were. -/
theorem run_of_fault {who : Signature} {cap : ℕ} {command : Command} {p q : Progress}
    {fault : Fault} (h : command.run who cap p = (q, .error fault)) :
    q.vars = p.vars ∧ q.journal = p.journal := by
  cases command with
  | simple s =>
      rw [run] at h
      split at h
      · simp at h
      · obtain ⟨rfl, -⟩ := Prod.mk.inj h
        exact ⟨rfl, rfl⟩
  | branch c onTrue onFalse =>
      obtain rfl := runBranch_of_fault h
      exact ⟨rfl, rfl⟩
  | whileLoop c body =>
      obtain rfl := runWhileLoop_of_fault h
      exact ⟨rfl, rfl⟩
  | forLoop count body => exact runForLoop_of_fault h

end Command

namespace Machine

/-- A command that fails changes nothing but the journal, which gets one entry: who gave the
command, its text, the fault, and the variables as they were before and after. -/
theorem execute_of_fault {m after : Machine} {who : Signature} {command : Command} {fault : Fault}
    (h : m.execute who command = (.error fault, after)) :
    after = { m with
      journal := m.journal.push ⟨who.clock m.journal.size, who.actor, command.text,
        "Error: " ++ fault.message, m.vars, .error⟩ } := by
  rw [execute] at h
  split at h
  · simp at h
  · next p other hrun =>
    obtain ⟨hvars, hjournal⟩ := Command.run_of_fault hrun
    obtain ⟨hfault, rfl⟩ := Prod.mk.inj h
    rw [← Except.error.inj hfault, hvars, hjournal]
    rfl

/-- A `for` loop over a variable that holds nothing, while `i` holds a value. -/
theorem execute_of_fault_forLoop :
    let m : Machine := { new 50 with vars := Variables.fresh.write loopName (some 7) }
    let command : Command := .forLoop 3 (.compute loopName Variables.initialName .add 1)
    (m.execute (.once "g1" .epoch) command).1 = .error (.uninitialized Variables.initialName) ∧
      (m.execute (.once "g1" .epoch) command).2 = { m with
        journal := #[⟨.epoch, "g1", "for i = 1 to 3 do i = global_1 + 1 end",
          "Error: variable 'global_1' is not initialized", m.vars, .error⟩] } := by
  intro m command
  have hfault : (m.execute (.once "g1" .epoch) command).1 =
      .error (.uninitialized Variables.initialName) := by decide +kernel
  have hrun : m.execute (.once "g1" .epoch) command =
      (.error (.uninitialized Variables.initialName), (m.execute (.once "g1" .epoch) command).2) :=
    Prod.ext hfault rfl
  refine ⟨hfault, ?_⟩
  rw [execute_of_fault hrun]
  rfl

end Machine

end LessonDeck
