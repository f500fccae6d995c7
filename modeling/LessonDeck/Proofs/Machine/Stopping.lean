import LessonDeck.Proofs.Machine.Iteration
/-!
# Where a `while` loop stops

The condition is read once more than the body is run, the last time before the cap is looked at.  So
a loop stops at the first iteration before which its condition does not hold, even if the cap is
reached there, and it is stopped by the cap only if the condition still holds.
-/

namespace LessonDeck

namespace Machine

namespace StopsAt

variable {m : Machine} {who : Signature} {c : Condition} {body : Simple} {cap n : ℕ}
  {maxReached : Bool}

theorem le_of_holds_false (h : m.StopsAt who c body cap n maxReached) {k : ℕ}
    (hk : c.holds (m.repeated who body k).vars = .ok false) : n ≤ k := by
  by_contra hlt
  have htrue := h.before k (not_le.mp hlt)
  exact nomatch htrue.symm.trans hk

theorem isLeast (h : m.StopsAt who c body cap n maxReached)
    (hfalse : ∃ k ≤ cap, c.holds (m.repeated who body k).vars = .ok false) :
    maxReached = false ∧ IsLeast {k | c.holds (m.repeated who body k).vars = .ok false} n := by
  obtain ⟨k, hk, hkfalse⟩ := hfalse
  cases maxReached with
  | false => exact ⟨rfl, h.holds, fun _ hj ↦ h.le_of_holds_false hj⟩
  | true =>
      -- Stopped at the cap, and so not before the number at which the condition fails.
      have hle := h.le_of_holds_false hkfalse
      obtain rfl : n = k := le_antisymm hle (hk.trans (h.eq_cap rfl).ge)
      exact nomatch h.holds.symm.trans hkfalse

theorem eq_cap_of_forall (h : m.StopsAt who c body cap n maxReached)
    (hnever : ∀ k ≤ cap, c.holds (m.repeated who body k).vars ≠ .ok false) :
    maxReached = true ∧ n = cap := by
  cases maxReached with
  | false => exact (hnever n h.le_cap h.holds).elim
  | true => exact ⟨rfl, h.eq_cap rfl⟩

end StopsAt

variable {m after : Machine} {who : Signature} {c : Condition} {body : Simple} {out : Outcome}

theorem exists_stopsAt_of_execute (h : m.execute who (.whileLoop c body) = (.ok out, after)) :
    ∃ n maxReached p, m.StopsAt who c body m.cap n maxReached ∧
      Progress.Reached who body (m.repeated who body) n (m.repeated who body n) p ∧
      out.flow = .loop n maxReached ∧ out.printed = p.printed.toList ∧ after.vars = p.vars := by
  cases hending : (runWhile who c body m.cap 0 m.start).ending with
  | error fault =>
      rw [execute, Command.run, Command.runWhileLoop, hending] at h
      simp at h
  | ok maxReached =>
      have hstart : m.start.Reached who body (m.repeated who body) 0 (m.repeated who body 0) :=
        Progress.reached_start who body _ m
      obtain ⟨n, hcount, hstops, hreached⟩ := exists_stopsAt_of_runWhile hstart
        (fun j hj ↦ (Nat.not_lt_zero j hj).elim) hending
      rw [zero_add] at hstops
      rw [execute, Command.run, Command.runWhileLoop, hending] at h
      obtain ⟨hout, rfl⟩ := Prod.mk.inj h
      obtain rfl := Except.ok.inj hout
      refine ⟨n, maxReached, _, hstops, hreached, congrArg (Flow.loop · maxReached) hcount, ?_⟩
      cases maxReached <;> exact ⟨rfl, rfl⟩

/-- A `while` loop that ends well stops at the least number of iterations after which its condition
does not hold, if that is within the cap, and otherwise it is stopped at the cap.  It leaves the
variables as its body does when it is executed so many times, and prints what the body prints, which
is what the variables hold that it finds. -/
theorem whileLoop_stops_in_time
    (h : m.execute who (.whileLoop c body) = (.ok out, after)) :
    ∃ n maxReached, out.flow = .loop n maxReached ∧
      after.vars = (m.repeated who body n).vars ∧
      out.printed = (List.range n).flatMap (fun j ↦ (m.repeated who body j).prints who body) ∧
      (∀ j, (m.repeated who body j).prints who body =
        body.toPrint (m.repeated who body j).vars) ∧
      (∀ j < n, c.holds (m.repeated who body j).vars = .ok true ∧
        ∃ once, ((m.repeated who body j).execute who (.simple body)).1 = .ok once) ∧
      c.holds (m.repeated who body n).vars = .ok maxReached ∧
      ((∃ k ≤ m.cap, c.holds (m.repeated who body k).vars = .ok false) → maxReached = false ∧
        IsLeast {k | c.holds (m.repeated who body k).vars = .ok false} n) ∧
      ((∀ k ≤ m.cap, c.holds (m.repeated who body k).vars ≠ .ok false) →
        maxReached = true ∧ n = m.cap) := by
  obtain ⟨n, maxReached, p, hstops, hreached, hflow, hprinted, hvars⟩ :=
    exists_stopsAt_of_execute h
  refine ⟨n, maxReached, hflow, hvars.trans hreached.vars, hprinted.trans hreached.printed,
    fun j ↦ prints_eq_toPrint _ who body, ?_, hstops.holds, hstops.isLeast, hstops.eq_cap_of_forall⟩
  intro j hj
  exact ⟨hstops.before j hj, hreached.ran j hj⟩

/-- The condition fails just when the cap is reached; and a loop that only prints goes on up to the
cap. -/
theorem whileLoop_stops_in_time_atCap :
    let m : Machine := { new 3 with vars := Variables.fresh.write "x" (some 0) }
    let who : Signature := .once "g1" .epoch
    let c : Condition := ⟨"x", .less, 3⟩
    let body : Simple := .compute "x" "x" .add 1
    (∃ out after, m.execute who (.whileLoop c body) = (.ok out, after) ∧ out.flow = .loop 3 false ∧
      IsLeast {k | c.holds (m.repeated who body k).vars = .ok false} 3) ∧
    ∃ out after, m.execute who (.whileLoop c (.print "x")) = (.ok out, after) ∧
      out.flow = .loop 3 true ∧ out.printed = [⟨"x", 0⟩, ⟨"x", 0⟩, ⟨"x", 0⟩] := by
  intro m who c body
  constructor
  · obtain ⟨out, after, hrun, hflow⟩ : ∃ out after,
        m.execute who (.whileLoop c body) = (.ok out, after) ∧ out.flow = .loop 3 false :=
      ⟨_, _, rfl, rfl⟩
    obtain ⟨n, maxReached, hflow', -, -, -, -, -, hleast, -⟩ := whileLoop_stops_in_time hrun
    obtain ⟨rfl, rfl⟩ := Flow.loop.inj (hflow.symm.trans hflow')
    exact ⟨out, after, hrun, hflow, (hleast ⟨3, le_rfl, rfl⟩).2⟩
  · obtain ⟨out, after, hrun, hflow⟩ : ∃ out after,
        m.execute who (.whileLoop c (.print "x")) = (.ok out, after) ∧ out.flow = .loop 3 true :=
      ⟨_, _, rfl, rfl⟩
    obtain ⟨n, maxReached, hflow', -, hprinted, honce, -⟩ := whileLoop_stops_in_time hrun
    obtain ⟨rfl, rfl⟩ := Flow.loop.inj (hflow.symm.trans hflow')
    refine ⟨out, after, hrun, hflow, ?_⟩
    simp only [hprinted, honce]
    rfl

end Machine

end LessonDeck
