import LessonDeck.Proofs.Machine.Fault
/-!
# Which commands fail

Whether a command fails, and with which fault, can be told from the variables before it runs.  A
branch fails with its condition or with the statement that the condition selects.  A loop fails in
its first iteration or not at all, so that a `while` loop that never gets to its body does not fail
with it: its condition does not hold, or the cap is zero.
-/

namespace LessonDeck

namespace Condition

variable {c : Condition} {vars : Variables}

theorem holds_of_value?_eq_none (h : vars.value? c.name = none) :
    c.holds vars = .error (.uninitialized c.name) := by
  rw [holds, Variables.read_of_value?_eq_none h]
  rfl

theorem holds_of_value? {v : Int64} (h : vars.value? c.name = some v) :
    c.holds vars = .ok (c.op.holds v c.literal) := by
  rw [holds, Variables.read_of_value? h]
  rfl

theorem fault?_of_value? {v : Int64} (h : vars.value? c.name = some v) : c.fault? vars = none := by
  rw [fault?, if_neg]
  simp [h]

end Condition

/-- The first number is in range, so that it is bound as it is. -/
theorem Progress.vars_count_one (p : Progress) :
    (p.count 1).vars = p.vars.bind loopName (some 1) :=
  rfl

namespace Command

/-- The fault that a command ends with, if any, told from the variables and the cap alone. -/
def fault? (cap : ℕ) (vars : Variables) : Command → Option Fault
  | simple s => s.fault? vars
  | branch c onTrue onFalse =>
    match vars.value? c.name with
    | none => some (.uninitialized c.name)
    | some v => (chosen (c.op.holds v c.literal) onTrue onFalse).bind (Simple.fault? vars)
  | whileLoop c body =>
    match vars.value? c.name with
    | none => some (.uninitialized c.name)
    | some v => if c.op.holds v c.literal = true ∧ 0 < cap then body.fault? vars else none
  | forLoop count body =>
    if 0 < count.toNat then body.fault? (vars.bind loopName (some 1)) else none

/-! ## Branches -/

section Branch

variable {who : Signature} {c : Condition} {onTrue : Simple} {onFalse : Option Simple}
  {p : Progress}

theorem runBranch_of_error {fault : Fault} (h : c.holds p.vars = .error fault) :
    runBranch who c onTrue onFalse p = .error fault := by
  rw [runBranch, h]
  rfl

/-- A branch whose condition can be read ends as the statement does that was chosen. -/
theorem runBranch_of_chosen {met : Bool} {s : Simple} (h : c.holds p.vars = .ok met)
    (hs : chosen met onTrue onFalse = some s) :
    (∀ fault, s.run who p = .error fault → runBranch who c onTrue onFalse p = .error fault) ∧
    ∀ text q, s.run who p = .ok (text, q) →
      ∃ result, runBranch who c onTrue onFalse p = .ok result := by
  have hchosen : (if met = true then some onTrue else onFalse) = some s := hs
  constructor
  · intro fault hrun
    rw [runBranch, h]
    simp only [bind, Except.bind, hchosen, hrun, Except.map]
  · intro text q hrun
    rw [runBranch, h]
    simp only [bind, Except.bind, hchosen, hrun, Except.map, pure, Except.pure]
    exact ⟨_, rfl⟩

theorem runBranch_of_not_chosen {met : Bool} (h : c.holds p.vars = .ok met)
    (hs : chosen met onTrue onFalse = none) :
    ∃ result, runBranch who c onTrue onFalse p = .ok result := by
  have hchosen : (if met = true then some onTrue else onFalse) = none := hs
  rw [runBranch, h]
  simp only [bind, Except.bind, hchosen, pure, Except.pure]
  exact ⟨_, rfl⟩

theorem runBranch_of_fault? {fault : Fault} {cap : ℕ}
    (h : (branch c onTrue onFalse).fault? cap p.vars = some fault) :
    runBranch who c onTrue onFalse p = .error fault := by
  rw [fault?] at h
  split at h
  · next hname =>
    rw [← Option.some.inj h]
    exact runBranch_of_error (Condition.holds_of_value?_eq_none hname)
  · next v hname =>
    obtain ⟨s, hs, hfault⟩ := Option.bind_eq_some_iff.mp h
    exact (runBranch_of_chosen (Condition.holds_of_value? hname) hs).1 fault
      (Simple.run_of_fault who hfault)

theorem runBranch_of_no_fault? {cap : ℕ}
    (h : (branch c onTrue onFalse).fault? cap p.vars = none) :
    ∃ result, runBranch who c onTrue onFalse p = .ok result := by
  rw [fault?] at h
  split at h
  · exact nomatch h
  · next v hname =>
    have hholds := Condition.holds_of_value? hname
    cases hs : chosen (c.op.holds v c.literal) onTrue onFalse with
    | none => exact runBranch_of_not_chosen hholds hs
    | some s =>
        rw [hs] at h
        obtain ⟨text, q, hrun, -⟩ := Simple.run_of_no_fault who (s := s) h
        exact (runBranch_of_chosen hholds hs).2 text q hrun

end Branch

/-! ## Loops -/

section Loop

variable {who : Signature} {c : Condition} {body : Simple} {cap : ℕ} {p : Progress}

theorem ending_of_fault? {fault : Fault} (h : (whileLoop c body).fault? cap p.vars = some fault) :
    (runWhile who c body cap 0 p).ending = .error fault := by
  rw [fault?] at h
  split at h
  · next hname =>
    rw [← Option.some.inj h, runWhile_of_error (Condition.holds_of_value?_eq_none hname)]
  · next v hname =>
    split at h
    · next hstart =>
      obtain ⟨hholds, hcap⟩ := hstart
      obtain ⟨left, rfl⟩ := Nat.exists_eq_succ_of_ne_zero hcap.ne'
      have hc : c.holds p.vars = .ok true := by rw [Condition.holds_of_value? hname, hholds]
      rw [runWhile_succ_of_error hc (Simple.run_of_fault who h)]
    · exact nomatch h

theorem ending_of_no_fault? (h : (whileLoop c body).fault? cap p.vars = none) :
    ∃ maxReached, (runWhile who c body cap 0 p).ending = .ok maxReached := by
  rw [fault?] at h
  split at h
  · exact nomatch h
  · next v hname =>
    have hc := Condition.holds_of_value? hname
    cases hholds : c.op.holds v c.literal with
    | false =>
        rw [hholds] at hc
        exact ⟨false, by rw [runWhile_of_false hc]⟩
    | true =>
        rw [hholds] at hc h
        cases cap with
        | zero => exact ⟨true, by rw [runWhile_zero hc]⟩
        | succ left =>
            rw [if_pos ⟨rfl, left.succ_pos⟩] at h
            exact runWhile_of_ready who _ 0 ⟨Condition.fault?_of_value? hname, h⟩

theorem runFor_of_fault? {count : UInt32} {fault : Fault}
    (h : (forLoop count body).fault? cap p.vars = some fault) :
    (runFor who body count.toNat 1 p).2 = .error fault := by
  rw [fault?] at h
  split at h
  · next hcount =>
    obtain ⟨left, hleft⟩ := Nat.exists_eq_succ_of_ne_zero hcount.ne'
    rw [← p.vars_count_one] at h
    rw [hleft, runFor_succ_of_error (Simple.run_of_fault who h)]
  · exact nomatch h

theorem runFor_of_no_fault? {count : UInt32} (h : (forLoop count body).fault? cap p.vars = none) :
    (runFor who body count.toNat 1 p).2 = .ok () := by
  rw [fault?] at h
  split at h
  · rw [← p.vars_count_one] at h
    exact runFor_of_no_fault who count.toNat 1 h
  · next hcount =>
    rw [Nat.eq_zero_of_not_pos hcount]
    rfl

end Loop

/-! ## Commands -/

variable {who : Signature} {cap : ℕ} {command : Command} {p : Progress}

theorem run_of_fault? {fault : Fault} (h : command.fault? cap p.vars = some fault) :
    (command.run who cap p).2 = .error fault := by
  cases command with
  | simple s =>
      rw [run, Simple.run_of_fault who (s := s) h]
  | branch c onTrue onFalse =>
      rw [run, runBranch_of_fault? h]
  | whileLoop c body =>
      rw [run, runWhileLoop, ending_of_fault? h]
  | forLoop count body =>
      rw [run, runForLoop]
      dsimp only
      rw [runFor_of_fault? h]

theorem run_of_no_fault? (h : command.fault? cap p.vars = none) :
    ∃ result, (command.run who cap p).2 = .ok result := by
  cases command with
  | simple s =>
      obtain ⟨text, q, hrun, -⟩ := Simple.run_of_no_fault who (s := s) h
      rw [run, hrun]
      exact ⟨_, rfl⟩
  | branch c onTrue onFalse =>
      obtain ⟨result, hrun⟩ : ∃ result, runBranch who c onTrue onFalse p = .ok result :=
        runBranch_of_no_fault? h
      rw [run, hrun]
      exact ⟨_, rfl⟩
  | whileLoop c body =>
      obtain ⟨maxReached, hending⟩ : ∃ maxReached,
          (runWhile who c body cap 0 p).ending = .ok maxReached := ending_of_no_fault? h
      rw [run, runWhileLoop, hending]
      exact ⟨_, rfl⟩
  | forLoop count body =>
      rw [run, runForLoop]
      dsimp only
      rw [runFor_of_no_fault? h]
      exact ⟨_, rfl⟩

end Command

namespace Machine

theorem execute_of_run_error {m : Machine} {who : Signature} {command : Command} {fault : Fault}
    (h : (command.run who m.cap m.start).2 = .error fault) :
    (m.execute who command).1 = .error fault := by
  rw [execute]
  split
  · next p summary flow hrun => simp [hrun] at h
  · next p other hrun =>
    rw [hrun] at h
    exact congrArg Except.error (Except.error.inj h)

theorem execute_of_run_ok {m : Machine} {who : Signature} {command : Command}
    {result : String × Flow} (h : (command.run who m.cap m.start).2 = .ok result) :
    ∃ out, (m.execute who command).1 = .ok out := by
  rw [execute]
  split
  · exact ⟨_, rfl⟩
  · next p fault hrun => simp [hrun] at h

theorem execute_of_fault? {m : Machine} {command : Command} {fault : Fault}
    (h : command.fault? m.cap m.vars = some fault) (who : Signature) :
    (m.execute who command).1 = .error fault :=
  execute_of_run_error (Command.run_of_fault? (p := m.start) h)

theorem execute_of_no_fault? {m : Machine} {command : Command}
    (h : command.fault? m.cap m.vars = none) (who : Signature) :
    ∃ out, (m.execute who command).1 = .ok out := by
  obtain ⟨result, hrun⟩ : ∃ result, (command.run who m.cap m.start).2 = .ok result :=
    Command.run_of_no_fault? h
  exact execute_of_run_ok hrun

theorem fault?_of_execute_error {m : Machine} {who : Signature} {command : Command}
    {fault : Fault} (h : (m.execute who command).1 = .error fault) :
    command.fault? m.cap m.vars = some fault := by
  cases hfault : command.fault? m.cap m.vars with
  | none =>
      obtain ⟨out, hout⟩ := execute_of_no_fault? hfault who
      exact nomatch hout.symm.trans h
  | some other =>
      have herror := execute_of_fault? hfault who
      rw [Except.error.inj (herror.symm.trans h)]

/-- A command fails exactly with the fault that is told beforehand.  If none is told it succeeds,
however often a loop goes round. -/
theorem execute_fails_iff (m : Machine) (who : Signature) (command : Command) :
    (∀ fault, (m.execute who command).1 = .error fault ↔
      command.fault? m.cap m.vars = some fault) ∧
    ((∃ out, (m.execute who command).1 = .ok out) ↔ command.fault? m.cap m.vars = none) := by
  refine ⟨fun fault ↦ ⟨fault?_of_execute_error, fun h ↦ execute_of_fault? h who⟩,
    fun ⟨out, hok⟩ ↦ ?_, fun h ↦ execute_of_no_fault? h who⟩
  cases hfault : command.fault? m.cap m.vars with
  | none => rfl
  | some fault => exact nomatch (execute_of_fault? hfault who).symm.trans hok

/-- A division by zero that reads the loop variable: by itself it finds nothing there, in a `for` loop
it finds a number, and a `while` loop without any room does not come to it. -/
theorem execute_fails_iff_divisions :
    let m : Machine := { new 0 with vars := Variables.fresh.write "x" (some 3) }
    let who : Signature := .once "g1" .epoch
    let body : Simple := .compute "y" loopName .div 0
    (m.execute who (.simple body)).1 = .error (.uninitialized "i") ∧
      (m.execute who (.forLoop 2 body)).1 = .error .divisionByZero ∧
      (∃ out, (m.execute who (.whileLoop ⟨"x", .greater, 0⟩ body)).1 = .ok out) ∧
      (m.execute who (.whileLoop ⟨"z", .greater, 0⟩ body)).1 = .error (.uninitialized "z") := by
  intro m who body
  refine ⟨?_, ?_, ?_, ?_⟩
  · exact ((execute_fails_iff m who (.simple body)).1 _).mpr rfl
  · exact ((execute_fails_iff m who (.forLoop 2 body)).1 _).mpr rfl
  · exact (execute_fails_iff m who (.whileLoop ⟨"x", .greater, 0⟩ body)).2.mpr rfl
  · exact ((execute_fails_iff m who (.whileLoop ⟨"z", .greater, 0⟩ body)).1 _).mpr rfl

end Machine

end LessonDeck
