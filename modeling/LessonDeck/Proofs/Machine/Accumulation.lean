import LessonDeck.Proofs.Command.Arithmetic
import LessonDeck.Proofs.Machine.Iteration
/-!
# A variable that a `for` loop computes from itself

Each iteration clamps what it stores, and yet nothing is lost: after so many iterations the variable
holds what all of them together come to over the integers, clamped once.  The variable must not be
the one that the loop binds.
-/

namespace LessonDeck.Machine

variable {m : Machine} {who : Signature} {x : String} {op : Arith} {c x₀ : Int64}

theorem value?_beginning_of_ne (hx : x ≠ loopName) (body : Simple) (n : ℕ) :
    (m.beginning who body n).vars.value? x = (m.counted who body n).vars.value? x := by
  rw [beginning, count, Variables.value?_write, if_neg hx.symm]

/-- By induction on the iterations; what is clamped in the last one is a step further than what the
ones before have come to. -/
theorem exists_value_counted (who : Signature) (hx : x ≠ loopName)
    (hvalue : m.vars.value? x = some x₀) (hrange : Value.InRange x₀) (hc : op = .div → c ≠ 0)
    (n : ℕ) :
    ∃ v, (m.counted who (.compute x x op c) n).vars.value? x = some v ∧ Value.InRange v ∧
      v.toInt = op.repeated x₀.toInt c.toInt n := by
  have hbounds := Value.inRange_iff.mp hrange
  induction n with
  | zero => exact ⟨x₀, hvalue, hrange, (Arith.repeated_zero hbounds op c.toInt).symm⟩
  | succ n ih =>
      obtain ⟨l, hl, hinRange, hsofar⟩ := ih
      obtain ⟨v, hv⟩ := Arith.exists_apply hc l
      have hread : (m.beginning who (.compute x x op c) n).vars.value? x = some l := by
        rw [value?_beginning_of_ne hx, hl]
      obtain ⟨once, hrun⟩ := execute_compute hread hv who x
      refine ⟨Value.clamp v, ?_, Value.inRange_clamp v, ?_⟩
      · rw [counted_succ, hrun, Variables.value?_write, if_pos rfl,
          Value.clamp_of_inRange (Value.inRange_clamp v)]
      · rw [Arith.toInt_clamp_of_apply hinRange hv, hsofar, Arith.repeated_succ hbounds]

/-- A `for` loop that applies an operator with one literal to a variable over and over goes round as
often as it should, and leaves the variable at the exact result of all its iterations, clamped. -/
theorem forLoop_clamps_once (m : Machine) (who : Signature) (count : UInt32)
    (hx : x ≠ loopName) (hvalue : m.vars.value? x = some x₀) (hrange : Value.InRange x₀)
    (hc : op = .div → c ≠ 0) :
    ∃ out after v, m.execute who (.forLoop count (.compute x x op c)) = (.ok out, after) ∧
      out.flow = .loop count.toNat false ∧ after.vars.value? x = some v ∧
      v.toInt = op.repeated x₀.toInt c.toInt count.toNat := by
  have hfirst : (m.count 1).vars.value? x = some x₀ := by
    rw [Machine.count, Variables.value?_write, if_neg hx.symm, hvalue]
  obtain ⟨out, after, hrun⟩ := exists_execute_forLoop who count (Simple.fault?_compute hfirst hc x)
  obtain ⟨q, -, hreached, hflow, -, hvars, -⟩ := exists_reached_of_execute_forLoop hrun
  obtain ⟨v, hv, -, hresult⟩ := exists_value_counted who hx hvalue hrange hc count.toNat
  refine ⟨out, after, v, hrun, hflow, ?_, hresult⟩
  rw [hvars, Variables.value?, Variables.binding_restore, if_neg hx.symm, hreached.vars]
  exact hv

/-- The sign alternates, also after an end of the range has been reached. -/
theorem forLoop_clamps_once_alternating :
    let m : Machine := { new 3 with vars := Variables.fresh.write "x" (some 7) }
    ∃ out after v,
      m.execute (.once "g1" .epoch) (.forLoop 21 (.compute "x" "x" .mul (-3))) = (.ok out, after) ∧
      out.flow = .loop 21 false ∧ after.vars.value? "x" = some v ∧ v.toInt = -1000000000 := by
  intro m
  have hvalue : m.vars.value? "x" = some 7 := by decide
  have hname : "x" ≠ loopName := by decide
  have hrange : Value.InRange 7 := by decide
  have hfactor : Arith.mul = .div → (-3 : Int64) ≠ 0 := nofun
  obtain ⟨out, after, v, hrun, hflow, hv, hresult⟩ :=
    forLoop_clamps_once m (.once "g1" .epoch) 21 hname hvalue hrange hfactor
  exact ⟨out, after, v, hrun, hflow, hv, hresult.trans (by decide)⟩

end LessonDeck.Machine
