import LessonDeck.Proofs.Machine.Chronicle
import LessonDeck.Proofs.Machine.Foresight
/-!
# Iterations as commands

What the body of a loop does in one iteration, it would also do as a command of its own, on a machine
with the same variables and journal.  So a loop that ends well has come to the machine on which its
body has been executed again and again: a `while` loop just so, and a `for` loop with its variable
bound anew each time.  What it printed is what these commands print, one after the other.
-/

namespace LessonDeck

/-! ## Machines between iterations -/

namespace Machine

/-- What a statement prints that is executed as a command. -/
def prints (m : Machine) (who : Signature) (s : Simple) : List Printed :=
  match (m.execute who (.simple s)).1 with
  | .ok out => out.printed
  | .error _ => []

theorem prints_eq_toPrint (m : Machine) (who : Signature) (s : Simple) :
    m.prints who s = s.toPrint m.vars := by
  rw [prints, execute, Command.run]
  cases hfault : s.fault? m.vars with
  | some fault =>
      rw [Simple.run_of_fault (p := m.start) who hfault, Simple.toPrint_of_fault hfault]
  | none =>
      obtain ⟨summary, q, hrun, heffect⟩ := Simple.run_of_no_fault (p := m.start) who hfault
      rw [hrun]
      exact heffect.printed

/-- The machine on which a statement has been executed so many times. -/
def repeated (m : Machine) (who : Signature) (s : Simple) : ℕ → Machine
  | 0 => m
  | n + 1 => ((m.repeated who s n).execute who (.simple s)).2

/-- The machine with the loop variable bound to the number of an iteration. -/
def count (m : Machine) (i : ℕ) : Machine :=
  { m with vars := m.vars.write loopName (some (Int64.ofNat i)) }

/-- The machine on which a statement has been executed so many times, the number of the iteration
written to the loop variable before each. -/
def counted (m : Machine) (who : Signature) (s : Simple) : ℕ → Machine
  | 0 => m
  | n + 1 => (((m.counted who s n).count (n + 1)).execute who (.simple s)).2

/-- The machine that an iteration of a `for` loop begins with, the first iteration being number
zero. -/
def beginning (m : Machine) (who : Signature) (s : Simple) (n : ℕ) : Machine :=
  (m.counted who s n).count (n + 1)

theorem counted_succ (m : Machine) (who : Signature) (s : Simple) (n : ℕ) :
    m.counted who s (n + 1) = ((m.beginning who s n).execute who (.simple s)).2 := rfl

end Machine

/-! ## Statements as commands -/

/-- What a statement does does not depend on what was written or printed before. -/
theorem Simple.run_start {who : Signature} {s : Simple} {p q : Progress} {text : String}
    (h : s.run who p = .ok (text, q)) :
    ∃ q', s.run who ⟨p.vars, p.journal, [], #[]⟩ = .ok (text, q') ∧ q'.vars = q.vars ∧
      q'.journal = q.journal ∧ q.printed.toList = p.printed.toList ++ q'.printed.toList := by
  let start : Progress := ⟨p.vars, p.journal, [], #[]⟩
  cases s with
  | assign name literal =>
      obtain ⟨rfl, rfl⟩ := Prod.mk.inj (Except.ok.inj h)
      exact ⟨_, rfl, rfl, rfl, (List.append_nil _).symm⟩
  | compute name left op right =>
      obtain ⟨result, hcomputed, hrest⟩ := exists_of_bind_eq_ok h
      obtain ⟨v, hl, hv, hresult⟩ := exists_of_computed (l := result.1) (w := result.2) hcomputed
      rw [run_compute hl hv] at h
      obtain ⟨rfl, rfl⟩ := Prod.mk.inj (Except.ok.inj h)
      exact ⟨_, run_compute (p := start) hl hv who name, rfl, rfl, (List.append_nil _).symm⟩
  | print name =>
      obtain ⟨v, hread, -⟩ := exists_of_bind_eq_ok h
      have hv := Variables.value?_of_read hread
      rw [run_print hv] at h
      obtain ⟨rfl, rfl⟩ := Prod.mk.inj (Except.ok.inj h)
      exact ⟨_, run_print (p := start) hv who, rfl, rfl, Array.toList_push⟩

namespace Machine

variable {m after : Machine} {who : Signature}

theorem execute_simple_of_run {s : Simple} {p q : Progress} {text : String}
    (hvars : p.vars = m.vars) (hjournal : p.journal = m.journal)
    (h : s.run who p = .ok (text, q)) :
    (∃ out, (m.execute who (.simple s)).1 = .ok out) ∧
      q.vars = (m.execute who (.simple s)).2.vars ∧
      q.journal = (m.execute who (.simple s)).2.journal ∧
      q.printed.toList = p.printed.toList ++ m.prints who s := by
  obtain ⟨q', hrun, hvars', hjournal', hprinted⟩ := Simple.run_start h
  rw [hvars, hjournal] at hrun
  have hstart : s.run who m.start = .ok (text, q') := hrun
  rw [prints, execute, Command.run, hstart]
  exact ⟨⟨_, rfl⟩, hvars'.symm, hjournal'.symm, hprinted⟩

theorem execute_assign (m : Machine) (who : Signature) (name : String) (literal : Int64) :
    ∃ out, m.execute who (.simple (.assign name literal)) = (.ok out, { m with
      vars := m.vars.write name (some (Value.clamp literal))
      journal := m.journal.push (who.entry m.journal.size
        (m.vars.write name (some (Value.clamp literal))) .info (Simple.assign name literal).text
        (name ++ " → " ++ Value.text (Value.clamp literal))) }) :=
  ⟨_, rfl⟩

theorem execute_compute {left : String} {op : Arith} {l right v : Int64}
    (hl : m.vars.value? left = some l) (hv : op.apply l right = some v) (who : Signature)
    (name : String) :
    ∃ out, m.execute who (.simple (.compute name left op right)) = (.ok out, { m with
      vars := m.vars.write name (some (Value.clamp v))
      journal := m.journal.push (who.entry m.journal.size
        (m.vars.write name (some (Value.clamp v))) .info (Simple.compute name left op right).text
        (Value.text l ++ " " ++ op.symbol ++ " " ++ Value.text right ++ " = " ++
          Value.text (Value.clamp v))) }) := by
  rw [execute, Command.run, Simple.run_compute (p := m.start) hl hv]
  exact ⟨_, rfl⟩

end Machine

/-! ## Loops -/

/-- A loop has got to a machine in so many iterations, each of which could be executed as a command on
the machine that it began with. -/
structure Progress.Reached (who : Signature) (body : Simple) (beginnings : ℕ → Machine) (n : ℕ)
    (m : Machine) (p : Progress) : Prop where
  vars : p.vars = m.vars
  journal : p.journal = m.journal
  printed : p.printed.toList = (List.range n).flatMap fun j ↦ (beginnings j).prints who body
  ran : ∀ j < n, ∃ out, ((beginnings j).execute who (.simple body)).1 = .ok out

namespace Progress

variable {who : Signature} {body : Simple} {beginnings : ℕ → Machine} {n : ℕ} {m : Machine}
  {p : Progress}

theorem reached_start (who : Signature) (body : Simple) (beginnings : ℕ → Machine) (m : Machine) :
    m.start.Reached who body beginnings 0 m :=
  ⟨rfl, rfl, rfl, fun _ h ↦ (Nat.not_lt_zero _ h).elim⟩

namespace Reached

theorem count (h : p.Reached who body beginnings n m) (i : ℕ) :
    (p.count i).Reached who body beginnings n (m.count i) := by
  refine ⟨?_, h.journal, h.printed, h.ran⟩
  rw [Progress.count, Machine.count, h.vars]

/-- One more iteration, on the machine that the loop has got to. -/
theorem step (h : p.Reached who body beginnings n (beginnings n)) {text : String} {q : Progress}
    (hrun : body.run who p = .ok (text, q)) :
    q.Reached who body beginnings (n + 1) ((beginnings n).execute who (.simple body)).2 := by
  obtain ⟨hout, hvars, hjournal, hprinted⟩ :=
    Machine.execute_simple_of_run h.vars h.journal hrun
  refine ⟨hvars, hjournal, ?_, fun j hj ↦ ?_⟩
  · rw [hprinted, h.printed, List.range_succ, List.flatMap_append, List.flatMap_singleton]
  · rcases Nat.lt_succ_iff_lt_or_eq.mp hj with hj | rfl
    · exact h.ran j hj
    · exact hout

end Reached

end Progress

/-- Where a `while` loop stops: its condition has held before each iteration, and holds no more unless
it has been stopped at the cap. -/
structure Machine.StopsAt (m : Machine) (who : Signature) (c : Condition) (body : Simple)
    (cap n : ℕ) (maxReached : Bool) : Prop where
  le_cap : n ≤ cap
  before : ∀ j < n, c.holds (m.repeated who body j).vars = .ok true
  holds : c.holds (m.repeated who body n).vars = .ok maxReached
  eq_cap : maxReached = true → n = cap

section Loops

variable {who : Signature} {body : Simple} {m : Machine} {p : Progress}

/-- By induction on the iterations that are left; `n` of them have been run. -/
theorem exists_stopsAt_of_runWhile {c : Condition} {left n : ℕ} {maxReached : Bool}
    (hp : p.Reached who body (m.repeated who body) n (m.repeated who body n))
    (hbefore : ∀ j < n, c.holds (m.repeated who body j).vars = .ok true)
    (h : (runWhile who c body left n p).ending = .ok maxReached) :
    ∃ k, (runWhile who c body left n p).iterations = k ∧
      m.StopsAt who c body (n + left) k maxReached ∧
      (runWhile who c body left n p).progress.Reached who body (m.repeated who body) k
        (m.repeated who body k) := by
  have hvars := hp.vars
  induction left generalizing n p with
  | zero =>
      cases hc : c.holds p.vars with
      | error fault =>
          rw [runWhile_of_error hc] at h
          exact nomatch h
      | ok b =>
          have hstop : runWhile who c body 0 n p = ⟨p, n, .ok b⟩ := by
            cases b with
            | false => exact runWhile_of_false hc
            | true => exact runWhile_zero hc
          rw [hstop] at h ⊢
          obtain rfl := Except.ok.inj h
          exact ⟨n, rfl, ⟨le_rfl, hbefore, hvars ▸ hc, fun _ ↦ rfl⟩, hp⟩
  | succ left ih =>
      cases hc : c.holds p.vars with
      | error fault =>
          rw [runWhile_of_error hc] at h
          exact nomatch h
      | ok b =>
          cases b with
          | false =>
              rw [runWhile_of_false hc] at h ⊢
              obtain rfl := Except.ok.inj h
              exact ⟨n, rfl, ⟨Nat.le_add_right n _, hbefore, hvars ▸ hc, nofun⟩, hp⟩
          | true =>
              cases hrun : body.run who p with
              | error fault =>
                  rw [runWhile_succ_of_error hc hrun] at h
                  exact nomatch h
              | ok result =>
                  rw [runWhile_succ_of_ok hc hrun] at h ⊢
                  have hnext := hp.step hrun
                  rw [Nat.add_comm left 1, ← Nat.add_assoc]
                  refine ih hnext (fun j hj ↦ ?_) h hnext.vars
                  rcases Nat.lt_succ_iff_lt_or_eq.mp hj with hj | rfl
                  · exact hbefore j hj
                  · exact hvars ▸ hc

/-- By induction on the iterations that are left; `n` of them have been run. -/
theorem reached_runFor {left n : ℕ}
    (hp : p.Reached who body (m.beginning who body) n (m.counted who body n))
    (h : (runFor who body left (n + 1) p).2 = .ok ()) :
    (runFor who body left (n + 1) p).1.Reached who body (m.beginning who body) (n + left)
      (m.counted who body (n + left)) := by
  induction left generalizing n p with
  | zero => exact hp
  | succ left ih =>
      have hbegun : (p.count (n + 1)).Reached who body (m.beginning who body) n
          (m.beginning who body n) := hp.count (n + 1)
      cases hrun : body.run who (p.count (n + 1)) with
      | error fault =>
          rw [runFor_succ_of_error hrun] at h
          exact nomatch h
      | ok result =>
          rw [runFor_succ_of_ok hrun] at h ⊢
          rw [Nat.add_comm left 1, ← Nat.add_assoc]
          exact ih (hbegun.step hrun) h

theorem Machine.exists_reached_of_execute_forLoop {after : Machine} {count : UInt32}
    {out : Outcome} (h : m.execute who (.forLoop count body) = (.ok out, after)) :
    ∃ q summary, Progress.Reached who body (m.beginning who body) count.toNat
        (m.counted who body count.toNat) q ∧
      out.flow = .loop count.toNat false ∧ out.printed = q.printed.toList ∧
      after.vars = q.vars.restore loopName (m.vars.binding loopName) ∧
      after.journal = q.journal.push summary := by
  cases hending : (runFor who body count.toNat 1 m.start).2 with
  | error fault =>
      rw [execute, Command.run, Command.runForLoop] at h
      dsimp only at h
      rw [hending] at h
      simp at h
  | ok _ =>
      have hstart : m.start.Reached who body (m.beginning who body) 0 (m.counted who body 0) :=
        Progress.reached_start who body _ m
      have hreached := reached_runFor hstart hending
      rw [zero_add] at hreached
      rw [execute, Command.run, Command.runForLoop] at h
      dsimp only at h
      rw [hending] at h
      obtain ⟨hout, rfl⟩ := Prod.mk.inj h
      obtain rfl := Except.ok.inj hout
      exact ⟨_, _, hreached, rfl, rfl, rfl, rfl⟩

theorem Machine.exists_execute_forLoop (who : Signature) (count : UInt32)
    (h : body.fault? (m.count 1).vars = none) :
    ∃ out after, m.execute who (.forLoop count body) = (.ok out, after) := by
  have hfault : (Command.forLoop count body).fault? m.cap m.vars = none := by
    rw [Command.fault?]
    split
    · exact h
    · rfl
  obtain ⟨out, hout⟩ := execute_of_no_fault? hfault who
  exact ⟨out, _, Prod.ext hout rfl⟩

end Loops

end LessonDeck
