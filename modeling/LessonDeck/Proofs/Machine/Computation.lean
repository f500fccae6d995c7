import LessonDeck.Proofs.Command.Arithmetic
import LessonDeck.Proofs.Machine.Iteration
import LessonDeck.Proofs.Machine.Range
/-!
# Computations of a machine

Wherever a command comes to a computation, in its last iteration as in its first, the variables are
in range.  So a division that takes place has a quotient among the words, and what a computation
stores is the exact result, clamped.  The only fault of a computation that finds its operand is a
divisor that is written as zero.
-/

namespace LessonDeck

namespace Arith

/-- Whether two words can be divided: the divisor is not zero, and the quotient over the integers,
its fraction dropped, is a word again. -/
def Divisible (left right : Int64) : Prop :=
  right ≠ 0 ∧ Int64.minValue.toInt ≤ left.toInt.tdiv right.toInt ∧
    left.toInt.tdiv right.toInt ≤ Int64.maxValue.toInt

instance (left right : Int64) : Decidable (Divisible left right) :=
  inferInstanceAs (Decidable (_ ∧ _ ∧ _))

theorem divisible_of_inRange {left right : Int64} (hleft : Value.InRange left)
    (hright : right ≠ 0) : Divisible left right := by
  have hmin : Int64.minValue.toInt ≤ Value.least.toInt := by decide
  have hmax : Value.greatest.toInt ≤ Int64.maxValue.toInt := by decide
  obtain ⟨hlow, hhigh⟩ := tdiv_mem (Value.inRange_iff.mp hleft) right.toInt
  exact ⟨hright, hmin.trans hlow, hhigh.trans hmax⟩

/-- Beyond the range of values there are words that cannot be divided. -/
example : ¬ Divisible Int64.minValue (-1) := by decide

end Arith

/-! ## Where statements are run -/

/-- A `while` loop that may go round so many more times runs its body on a progress. -/
inductive WhileAttempts (who : Signature) (c : Condition) (body : Simple) :
    ℕ → Progress → Progress → Prop
  | first {left : ℕ} {p : Progress} (hc : c.holds p.vars = .ok true) :
      WhileAttempts who c body (left + 1) p p
  | later {left : ℕ} {p q r : Progress} {text : String} (hc : c.holds p.vars = .ok true)
      (hrun : body.run who p = .ok (text, q)) (h : WhileAttempts who c body left q r) :
      WhileAttempts who c body (left + 1) p r

/-- A `for` loop that goes round so many more times runs its body on a progress. -/
inductive ForAttempts (who : Signature) (body : Simple) : ℕ → ℕ → Progress → Progress → Prop
  | first {left i : ℕ} {p : Progress} : ForAttempts who body (left + 1) i p (p.count i)
  | later {left i : ℕ} {p q r : Progress} {text : String}
      (hrun : body.run who (p.count i) = .ok (text, q))
      (h : ForAttempts who body left (i + 1) q r) : ForAttempts who body (left + 1) i p r

/-- A command that is begun on one progress runs a statement on another one. -/
inductive Command.Attempts (who : Signature) (cap : ℕ) :
    Command → Progress → Simple → Progress → Prop
  | simple {s : Simple} {p : Progress} : Attempts who cap (simple s) p s p
  | branch {c : Condition} {onTrue s : Simple} {onFalse : Option Simple} {p : Progress}
      {met : Bool} (hc : c.holds p.vars = .ok met) (hs : chosen met onTrue onFalse = some s) :
      Attempts who cap (branch c onTrue onFalse) p s p
  | whileLoop {c : Condition} {body : Simple} {p q : Progress}
      (h : WhileAttempts who c body cap p q) : Attempts who cap (whileLoop c body) p body q
  | forLoop {count : UInt32} {body : Simple} {p q : Progress}
      (h : ForAttempts who body count.toNat 1 p q) : Attempts who cap (forLoop count body) p body q

namespace Progress.InRange

variable {base : Array Entry} {who : Signature} {p q : Progress}

theorem whileAttempts {c : Condition} {body : Simple} {left : ℕ} (hp : p.InRange base)
    (h : WhileAttempts who c body left p q) : q.InRange base := by
  induction h with
  | first hc => exact hp
  | later hc hrun _ ih => exact ih (hp.run hrun)

theorem forAttempts {body : Simple} {left i : ℕ} (hp : p.InRange base)
    (h : ForAttempts who body left i p q) : q.InRange base := by
  induction h with
  | @first _ i p => exact hp.count i
  | @later _ i p q r text hrun _ ih => exact ih ((hp.count i).run hrun)

/-- What a command starts with in range is in range wherever it runs a statement. -/
theorem attempts {cap : ℕ} {command : Command} {s : Simple} (hp : p.InRange base)
    (h : command.Attempts who cap p s q) : q.InRange base := by
  cases h with
  | simple => exact hp
  | branch hc hs => exact hp
  | whileLoop h => exact hp.whileAttempts h
  | forLoop h => exact hp.forAttempts h

end Progress.InRange

/-! ## What a computation comes to -/

namespace Simple

variable {p : Progress} {left : String} {op : Arith} {l right : Int64}

theorem run_compute_by_zero (hl : p.vars.value? left = some l) (who : Signature) (name : String) :
    (compute name left .div 0).run who p = .error .divisionByZero := by
  apply run_of_fault
  simp [fault?, hl]

theorem exists_run_compute (hp : p.vars.InRange) (hl : p.vars.value? left = some l)
    (hright : op = .div → right ≠ 0) (who : Signature) (name : String) :
    ∃ text q v, (compute name left op right).run who p = .ok (text, q) ∧
      q.vars.value? name = some v ∧
      v.toInt = Value.bounded (op.result l.toInt right.toInt) := by
  obtain ⟨w, hw⟩ := Arith.exists_apply hright l
  refine ⟨_, _, Value.clamp w, run_compute hl hw who name, ?_, ?_⟩
  · change (p.vars.write name (some (Value.clamp w))).value? name = _
    rw [Variables.value?_write, if_pos rfl, Value.clamp_of_inRange (Value.inRange_clamp w)]
  · exact Arith.toInt_clamp_of_apply (hp left l hl) hw

theorem eq_compute_of_fault? {s : Simple} {vars : Variables}
    (h : s.fault? vars = some .divisionByZero) :
    ∃ name left l, s = compute name left .div 0 ∧ vars.value? left = some l := by
  cases s with
  | assign name literal => cases h
  | compute name left op right =>
      rw [fault?] at h
      split at h
      · simp at h
      · next hl =>
        split at h
        · next hzero =>
          obtain ⟨rfl, rfl⟩ := hzero
          obtain ⟨l, hl⟩ := Option.ne_none_iff_exists'.mp hl
          exact ⟨name, left, l, rfl, hl⟩
        · cases h
  | print name =>
      rw [fault?] at h
      split at h
      · simp at h
      · cases h

end Simple

/-- A command that is bound to divide by zero runs the division. -/
theorem Command.exists_attempts_of_fault? {cap : ℕ} {command : Command} {p : Progress}
    (h : command.fault? cap p.vars = some .divisionByZero) (who : Signature) :
    ∃ s q, command.Attempts who cap p s q ∧ s.fault? q.vars = some .divisionByZero := by
  cases command with
  | simple s => exact ⟨s, p, .simple, h⟩
  | branch c onTrue onFalse =>
      rw [fault?] at h
      split at h
      · simp at h
      · next v hv =>
        obtain ⟨s, hs, hfault⟩ := Option.bind_eq_some_iff.mp h
        exact ⟨s, p, .branch (Condition.holds_of_value? hv) hs, hfault⟩
  | whileLoop c body =>
      rw [fault?] at h
      split at h
      · simp at h
      · next v hv =>
        split at h
        · next hstart =>
          obtain ⟨hholds, hcap⟩ := hstart
          have hc := Condition.holds_of_value? hv
          rw [hholds] at hc
          obtain ⟨left, rfl⟩ := Nat.exists_eq_succ_of_ne_zero hcap.ne'
          exact ⟨body, p, .whileLoop (.first hc), h⟩
        · cases h
  | forLoop count body =>
      rw [fault?] at h
      split at h
      · next hcount =>
        obtain ⟨left, hleft⟩ := Nat.exists_eq_succ_of_ne_zero hcount.ne'
        have hfirst : ForAttempts who body count.toNat 1 p (p.count 1) := hleft ▸ .first
        exact ⟨body, p.count 1, .forLoop hfirst, h⟩
      · cases h

namespace Machine

/-- After any operations of a machine, a command that runs a computation whose left variable holds a
value divides only where the quotient is a word, and stores the exact result, clamped, unless the
divisor is zero.  A command that is nothing but a computation leaves its variable at that result,
and one that divides by zero has come to a division by a zero that is written in it. -/
theorem computations_are_exact (cap : ℕ) (ops : List Operation) (who : Signature) :
    let m := (new cap).performAll ops
    (∀ (command : Command) (p : Progress) (name left : String) (op : Arith) (right l : Int64),
      command.Attempts who m.cap m.start (.compute name left op right) p →
      p.vars.value? left = some l →
      (op = .div → right ≠ 0 → Arith.Divisible l right) ∧
      (op = .div → right = 0 →
        (Simple.compute name left op right).run who p = .error .divisionByZero) ∧
      ((op = .div → right ≠ 0) → ∃ text q v,
        (Simple.compute name left op right).run who p = .ok (text, q) ∧
        q.vars.value? name = some v ∧
        v.toInt = Value.bounded (op.result l.toInt right.toInt))) ∧
    (∀ (name left : String) (op : Arith) (right l : Int64), m.vars.value? left = some l →
      (op = .div → right ≠ 0) →
      ∃ out after v, m.execute who (.simple (.compute name left op right)) = (.ok out, after) ∧
        after.vars.value? name = some v ∧
        v.toInt = Value.bounded (op.result l.toInt right.toInt)) ∧
    ∀ command : Command, (m.execute who command).1 = .error .divisionByZero →
      ∃ name left p l, command.Attempts who m.cap m.start (.compute name left .div 0) p ∧
        p.vars.value? left = some l := by
  intro m
  have hm : m.InRange (ops.foldl Operation.inherited #[]) := (inRange_new cap).performAll ops
  refine ⟨?_, ?_, ?_⟩
  · intro command p name left op right l hattempts hl
    have hp := (hm.start.attempts hattempts).vars
    refine ⟨fun _ hright ↦ Arith.divisible_of_inRange (hp left l hl) hright, ?_, ?_⟩
    · rintro rfl rfl
      exact Simple.run_compute_by_zero hl who name
    · intro hright
      exact Simple.exists_run_compute hp hl hright who name
  · intro name left op right l hl hright
    obtain ⟨text, q, v, hrun, hv, hexact⟩ :=
      Simple.exists_run_compute (p := m.start) hm.vars hl hright who name
    obtain ⟨⟨out, hout⟩, hvars, -⟩ := execute_simple_of_run rfl rfl hrun
    exact ⟨out, _, v, Prod.ext hout rfl, hvars ▸ hv, hexact⟩
  · intro command herror
    obtain ⟨s, p, hattempts, hfault⟩ :=
      Command.exists_attempts_of_fault? (p := m.start) (fault?_of_execute_error herror) who
    obtain ⟨name, left, l, rfl, hl⟩ := Simple.eq_compute_of_fault? hfault
    exact ⟨name, left, p, l, hattempts, hl⟩

/-- The least of all words is taken over from a checkpoint and then divided by minus one, twice. -/
theorem computations_are_exact_restored :
    let c : Checkpoint := ⟨Variables.fresh.bind "x" (some Int64.minValue), #[], .epoch⟩
    let m := (new 50).performAll [.restore c]
    let who : Signature := .once "g1" .epoch
    let body : Simple := .compute "x" "x" .div (-1)
    (∃ p, (Command.forLoop 2 body).Attempts who m.cap m.start body p ∧
      p.vars.value? "x" = some 1000000000 ∧ Arith.Divisible 1000000000 (-1) ∧
      ∃ text q v, body.run who p = .ok (text, q) ∧ q.vars.value? "x" = some v ∧
        v.toInt = -1000000000) ∧
    (∃ out after v, m.execute who (.simple (.compute "y" "x" .mul Int64.minValue)) =
      (.ok out, after) ∧ after.vars.value? "y" = some v ∧ v.toInt = 1000000000) ∧
    ∃ name left p l, (Command.forLoop 2 (.compute "x" loopName .div 0)).Attempts who m.cap m.start
      (.compute name left .div 0) p ∧ p.vars.value? left = some l := by
  intro c m who body
  obtain ⟨hattempt, hcommand, hzero⟩ := computations_are_exact 50 [.restore c] who
  have hright : Arith.div = .div → (-1 : Int64) ≠ 0 := fun _ ↦ by decide
  refine ⟨?_, ?_, ?_⟩
  · obtain ⟨p, hsecond, hx⟩ : ∃ p, (Command.forLoop 2 body).Attempts who m.cap m.start body p ∧
        p.vars.value? "x" = some 1000000000 :=
      ⟨_, .forLoop (.later rfl .first), rfl⟩
    obtain ⟨hdivisible, -, hstores⟩ := hattempt _ p "x" "x" .div (-1) _ hsecond hx
    obtain ⟨text, q, v, hrun, hv, hexact⟩ := hstores hright
    exact ⟨p, hsecond, hx, hdivisible rfl (hright rfl), text, q, v, hrun, hv,
      hexact.trans (by decide)⟩
  · obtain ⟨out, after, v, hrun, hv, hexact⟩ :=
      hcommand "y" "x" .mul Int64.minValue (-1000000000) rfl nofun
    exact ⟨out, after, v, hrun, hv, hexact.trans (by decide)⟩
  · exact hzero (.forLoop 2 (.compute "x" loopName .div 0)) rfl

end Machine

end LessonDeck
