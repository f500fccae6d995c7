import LessonDeck.Proofs.Machine.Control
/-!
# The journal is only written

What a command does, the journal aside, it would also do with another journal, for somebody else and
at another time: it adds to the journal and never looks at it.  So two machines with the same
variables and cap do the same, whatever has been entered in their journals.
-/

namespace LessonDeck

/-- Two progresses that differ in nothing but their journals. -/
structure Progress.Alike (p q : Progress) : Prop where
  vars : p.vars = q.vars
  written : p.written = q.written
  printed : p.printed = q.printed

variable (who who' : Signature) {p q : Progress}

namespace Progress.Alike

theorem count (h : p.Alike q) (i : ℕ) : (p.count i).Alike (q.count i) :=
  ⟨congrArg (·.write loopName (some (Int64.ofNat i))) h.vars, h.written, h.printed⟩

theorem record (h : p.Alike q) (kind : EntryKind) (action result : String) :
    (p.record who kind action result).Alike (q.record who' kind action result) :=
  ⟨h.vars, h.written, h.printed⟩

/-- A statement has the same fault on both sides, or does the same on both. -/
theorem run (h : p.Alike q) (s : Simple) :
    (∃ fault, s.run who p = .error fault ∧ s.run who' q = .error fault) ∨
      ∃ text p' q', s.run who p = .ok (text, p') ∧ s.run who' q = .ok (text, q') ∧
        p'.Alike q' := by
  obtain ⟨vars, journal, written, printed⟩ := p
  obtain ⟨vars', journal', written', printed'⟩ := q
  obtain ⟨rfl, rfl, rfl⟩ := h
  cases s with
  | assign name literal => exact .inr ⟨_, _, _, rfl, rfl, rfl, rfl, rfl⟩
  | compute name left op right =>
      simp only [Simple.run]
      cases computed vars left op right with
      | error fault => exact .inl ⟨fault, rfl, rfl⟩
      | ok result => exact .inr ⟨_, _, _, rfl, rfl, rfl, rfl, rfl⟩
  | print name =>
      simp only [Simple.run]
      cases vars.read name with
      | error fault => exact .inl ⟨fault, rfl, rfl⟩
      | ok v => exact .inr ⟨_, _, _, rfl, rfl, rfl, rfl, rfl⟩

/-! ## Loops -/

theorem runWhile (h : p.Alike q) (c : Condition) (body : Simple) (left done : ℕ) :
    let ran := runWhile who c body left done p
    let ran' := runWhile who' c body left done q
    ran.progress.Alike ran'.progress ∧ ran.iterations = ran'.iterations ∧
      ran.ending = ran'.ending := by
  induction left generalizing done p q with
  | zero =>
      cases hc : c.holds p.vars with
      | error fault =>
          rw [runWhile_of_error hc, runWhile_of_error (h.vars ▸ hc)]
          exact ⟨h, rfl, rfl⟩
      | ok b =>
          cases b with
          | false =>
              rw [runWhile_of_false hc, runWhile_of_false (h.vars ▸ hc)]
              exact ⟨h, rfl, rfl⟩
          | true =>
              rw [runWhile_zero hc, runWhile_zero (h.vars ▸ hc)]
              exact ⟨h, rfl, rfl⟩
  | succ left ih =>
      cases hc : c.holds p.vars with
      | error fault =>
          rw [runWhile_of_error hc, runWhile_of_error (h.vars ▸ hc)]
          exact ⟨h, rfl, rfl⟩
      | ok b =>
          cases b with
          | false =>
              rw [runWhile_of_false hc, runWhile_of_false (h.vars ▸ hc)]
              exact ⟨h, rfl, rfl⟩
          | true =>
              obtain ⟨fault, hp, hq⟩ | ⟨text, p', q', hp, hq, hafter⟩ := h.run who who' body
              · rw [runWhile_succ_of_error hc hp, runWhile_succ_of_error (h.vars ▸ hc) hq]
                exact ⟨h, rfl, rfl⟩
              · rw [runWhile_succ_of_ok hc hp, runWhile_succ_of_ok (h.vars ▸ hc) hq]
                exact ih hafter (done + 1)

theorem runFor (h : p.Alike q) (body : Simple) (left i : ℕ) :
    (runFor who body left i p).1.Alike (runFor who' body left i q).1 ∧
      (runFor who body left i p).2 = (runFor who' body left i q).2 := by
  induction left generalizing i p q with
  | zero => exact ⟨h, rfl⟩
  | succ left ih =>
      obtain ⟨fault, hp, hq⟩ | ⟨text, p', q', hp, hq, hafter⟩ := (h.count i).run who who' body
      · rw [runFor_succ_of_error hp, runFor_succ_of_error hq]
        exact ⟨h.count i, rfl⟩
      · rw [runFor_succ_of_ok hp, runFor_succ_of_ok hq]
        exact ih hafter (i + 1)

/-! ## Commands -/

theorem runBranch (h : p.Alike q) (c : Condition) (onTrue : Simple) (onFalse : Option Simple) :
    (∃ fault, Command.runBranch who c onTrue onFalse p = .error fault ∧
        Command.runBranch who' c onTrue onFalse q = .error fault) ∨
      ∃ text flow p' q', Command.runBranch who c onTrue onFalse p = .ok (text, flow, p') ∧
        Command.runBranch who' c onTrue onFalse q = .ok (text, flow, q') ∧ p'.Alike q' := by
  rw [Command.runBranch, Command.runBranch, h.vars]
  cases c.holds q.vars with
  | error fault => exact .inl ⟨fault, rfl, rfl⟩
  | ok met =>
      simp only [bind, Except.bind, pure, Except.pure]
      cases hchosen : (if met then some onTrue else onFalse) with
      | none => exact .inr ⟨_, _, _, _, rfl, rfl, h.record who who' _ _ _⟩
      | some s =>
          obtain ⟨fault, hp, hq⟩ | ⟨text, p', q', hp, hq, hafter⟩ := h.run who who' s
          · simp only [hp, hq, Except.map]
            exact .inl ⟨fault, rfl, rfl⟩
          · simp only [hp, hq, Except.map]
            exact .inr ⟨_, _, _, _, rfl, rfl, hafter.record who who' _ _ _⟩

theorem runWhileLoop (h : p.Alike q) (cap : ℕ) (c : Condition) (body : Simple) :
    (Command.runWhileLoop who cap c body p).1.Alike (Command.runWhileLoop who' cap c body q).1 ∧
      (Command.runWhileLoop who cap c body p).2 = (Command.runWhileLoop who' cap c body q).2 := by
  obtain ⟨hafter, hiterations, hending⟩ := h.runWhile who who' c body cap 0
  rw [Command.runWhileLoop, Command.runWhileLoop, hending, hiterations]
  cases (LessonDeck.runWhile who' c body cap 0 q).ending with
  | error fault => exact ⟨hafter, rfl⟩
  | ok maxReached => cases maxReached <;> exact ⟨⟨hafter.vars, hafter.written, hafter.printed⟩, rfl⟩

theorem runForLoop (h : p.Alike q) (count : UInt32) (body : Simple) :
    (Command.runForLoop who count body p).1.Alike (Command.runForLoop who' count body q).1 ∧
      (Command.runForLoop who count body p).2 = (Command.runForLoop who' count body q).2 := by
  obtain ⟨hafter, hresult⟩ := h.runFor who who' body count.toNat 1
  rw [Command.runForLoop, Command.runForLoop, h.vars]
  dsimp only
  rw [hresult]
  have hback := congrArg (·.restore loopName (q.vars.binding loopName)) hafter.vars
  have hwritten := congrArg (List.filter (· != loopName)) hafter.written
  cases (LessonDeck.runFor who' body count.toNat 1 q).2 with
  | error fault => exact ⟨⟨hback, hwritten, hafter.printed⟩, rfl⟩
  | ok _ => exact ⟨⟨hback, hwritten, hafter.printed⟩, rfl⟩

/-- A command ends the same way on both sides, whoever gives it. -/
theorem runCommand (h : p.Alike q) (cap : ℕ) (command : Command) :
    (command.run who cap p).1.Alike (command.run who' cap q).1 ∧
      (command.run who cap p).2 = (command.run who' cap q).2 := by
  cases command with
  | simple s =>
      obtain ⟨fault, hp, hq⟩ | ⟨text, p', q', hp, hq, hafter⟩ := h.run who who' s
      · rw [Command.run, Command.run, hp, hq]
        exact ⟨h, rfl⟩
      · rw [Command.run, Command.run, hp, hq]
        exact ⟨hafter, rfl⟩
  | branch c onTrue onFalse =>
      obtain ⟨fault, hp, hq⟩ | ⟨text, flow, p', q', hp, hq, hafter⟩ :=
        h.runBranch who who' c onTrue onFalse
      · rw [Command.run, Command.run, hp, hq]
        exact ⟨h, rfl⟩
      · rw [Command.run, Command.run, hp, hq]
        exact ⟨hafter, rfl⟩
  | whileLoop c body => exact h.runWhileLoop who who' cap c body
  | forLoop count body => exact h.runForLoop who who' count body

end Progress.Alike

/-! ## Machines -/

namespace Machine

/-- The machine with an empty journal. -/
def blank (m : Machine) : Machine :=
  { m with journal := #[] }

theorem execute_of_blank_eq {m n : Machine} (h : m.blank = n.blank) (command : Command) :
    (m.execute who command).1 = (n.execute who' command).1 ∧
      (m.execute who command).2.blank = (n.execute who' command).2.blank := by
  obtain ⟨hvars, -, hcap⟩ := Machine.mk.inj h
  have hstart : m.start.Alike n.start := ⟨hvars, rfl, rfl⟩
  obtain ⟨hafter, hresult⟩ := hstart.runCommand who who' n.cap command
  rw [execute, execute, hcap]
  cases hp : command.run who n.cap m.start with
  | mk p ending =>
    cases hq : command.run who' n.cap n.start with
    | mk q ending' =>
      rw [hp, hq] at hafter hresult
      obtain rfl : ending = ending' := hresult
      obtain ⟨hvars, hwritten, hprinted⟩ : p.Alike q := hafter
      cases ending with
      | error fault => simp only [log, blank, hvars, and_self]
      | ok result => simp only [blank, hvars, hwritten, hprinted, and_self]

end Machine

end LessonDeck
