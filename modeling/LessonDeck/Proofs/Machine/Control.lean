import LessonDeck.Proofs.Machine.Statement
/-!
# Control structures, step by step

A `while` loop reads its condition before each iteration and before it looks at the cap.  A `for`
loop binds its variable anew before each iteration.  So what one iteration preserves, a whole run of
either loop preserves.  A branch runs at most one statement.
-/

namespace LessonDeck

/-! ## `while` loops -/

variable {who : Signature} {c : Condition} {body : Simple} {left done : ℕ} {p : Progress}

theorem runWhile_of_error {fault : Fault} (h : c.holds p.vars = .error fault) :
    runWhile who c body left done p = ⟨p, done, .error fault⟩ := by
  cases left <;> rw [runWhile, h]

theorem runWhile_of_false (h : c.holds p.vars = .ok false) :
    runWhile who c body left done p = ⟨p, done, .ok false⟩ := by
  cases left <;> rw [runWhile, h]

theorem runWhile_zero (h : c.holds p.vars = .ok true) :
    runWhile who c body 0 done p = ⟨p, done, .ok true⟩ := by
  rw [runWhile, h]

theorem runWhile_succ_of_error {fault : Fault} (h : c.holds p.vars = .ok true)
    (hrun : body.run who p = .error fault) :
    runWhile who c body (left + 1) done p = ⟨p, done, .error fault⟩ := by
  rw [runWhile, h]
  dsimp only
  rw [hrun]

theorem runWhile_succ_of_ok {text : String} {q : Progress} (h : c.holds p.vars = .ok true)
    (hrun : body.run who p = .ok (text, q)) :
    runWhile who c body (left + 1) done p = runWhile who c body left (done + 1) q := by
  rw [runWhile, h]
  dsimp only
  rw [hrun]

/-- What the body preserves, a `while` loop preserves, however it ends. -/
theorem runWhile_preserves {P : Progress → Prop}
    (hbody : ∀ p q text, P p → body.run who p = .ok (text, q) → P q) (h : P p) :
    P (runWhile who c body left done p).progress := by
  induction left generalizing done p with
  | zero =>
      cases hc : c.holds p.vars with
      | error fault => rwa [runWhile_of_error hc]
      | ok b =>
          cases b with
          | false => rwa [runWhile_of_false hc]
          | true => rwa [runWhile_zero hc]
  | succ left ih =>
      cases hc : c.holds p.vars with
      | error fault => rwa [runWhile_of_error hc]
      | ok b =>
          cases b with
          | false => rwa [runWhile_of_false hc]
          | true =>
              cases hrun : body.run who p with
              | error fault => rwa [runWhile_succ_of_error hc hrun]
              | ok result =>
                  rw [runWhile_succ_of_ok hc hrun]
                  exact ih (hbody p _ _ h hrun)

/-! ## `for` loops -/

/-- The progress with the loop variable bound to the number of an iteration. -/
def Progress.count (p : Progress) (i : ℕ) : Progress :=
  { p with vars := p.vars.write loopName (some (Int64.ofNat i)) }

theorem runFor_succ_of_error {i : ℕ} {fault : Fault}
    (hrun : body.run who (p.count i) = .error fault) :
    runFor who body (left + 1) i p = (p.count i, .error fault) := by
  rw [Progress.count] at hrun ⊢
  rw [runFor, hrun]

theorem runFor_succ_of_ok {i : ℕ} {text : String} {q : Progress}
    (hrun : body.run who (p.count i) = .ok (text, q)) :
    runFor who body (left + 1) i p = runFor who body left (i + 1) q := by
  rw [Progress.count] at hrun
  rw [runFor, hrun]

/-- What the body and the binding of the loop variable preserve, a `for` loop preserves, however it
ends. -/
theorem runFor_preserves {P : Progress → Prop} (hcount : ∀ p i, P p → P (p.count i))
    (hbody : ∀ p q text, P p → body.run who p = .ok (text, q) → P q) (i : ℕ) (h : P p) :
    P (runFor who body left i p).1 := by
  induction left generalizing i p with
  | zero => exact h
  | succ left ih =>
      have hbound := hcount p i h
      cases hrun : body.run who (p.count i) with
      | error fault => rwa [runFor_succ_of_error hrun]
      | ok result =>
          rw [runFor_succ_of_ok hrun]
          exact ih (i + 1) (hbody _ _ _ hbound hrun)

/-! ## Branches -/

/-- The statement that a condition selects, if any. -/
def chosen (met : Bool) (onTrue : Simple) (onFalse : Option Simple) : Option Simple :=
  if met then some onTrue else onFalse

/-- A branch that runs to its end has run the statement that was chosen, if any, and has entered
whether the condition was met. -/
theorem runBranch_eq_ok {onTrue : Simple} {onFalse : Option Simple} {summary : String}
    {flow : Flow} {q : Progress}
    (h : Command.runBranch who c onTrue onFalse p = .ok (summary, flow, q)) :
    ∃ met p', c.holds p.vars = .ok met ∧
      (chosen met onTrue onFalse = none ∧ p' = p ∨
        ∃ s text, chosen met onTrue onFalse = some s ∧ s.run who p = .ok (text, p')) ∧
      flow = .branch met (chosen met onTrue onFalse).isSome ∧
      q = p'.record who .info ("if " ++ c.text ++ " then ...")
        (if met then "condition met" else "condition not met") := by
  rw [Command.runBranch] at h
  cases hc : c.holds p.vars with
  | error fault =>
      rw [hc] at h
      exact nomatch h
  | ok met =>
      rw [hc] at h
      refine ⟨met, ?_⟩
      cases hchosen : chosen met onTrue onFalse with
      | none =>
          have hnone : (if met then some onTrue else onFalse) = none := hchosen
          simp only [hnone, bind, Except.bind, pure, Except.pure] at h
          obtain ⟨-, hflow, hq⟩ := by simpa only [Except.ok.injEq, Prod.mk.injEq] using h
          exact ⟨p, rfl, .inl ⟨rfl, rfl⟩, hflow.symm, hq.symm⟩
      | some s =>
          have hsome : (if met then some onTrue else onFalse) = some s := hchosen
          simp only [hsome, bind, Except.bind, pure, Except.pure] at h
          cases hrun : s.run who p with
          | error fault =>
              rw [hrun] at h
              exact nomatch h
          | ok result =>
              obtain ⟨text, p'⟩ := result
              rw [hrun] at h
              simp only [Except.map, Except.ok.injEq, Prod.mk.injEq] at h
              obtain ⟨-, hflow, hq⟩ := h
              exact ⟨p', rfl, .inr ⟨s, text, rfl, hrun⟩, hflow.symm, hq.symm⟩

end LessonDeck
