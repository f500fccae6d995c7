import LessonDeck.Command.Operator
import LessonDeck.Proofs.Value
/-!
# Results of operators

Beyond the words an operator gives the nearest word, and clamping takes that to the same end of the
range as the exact result.  A quotient is never beyond a dividend of the range.  So the result that
is kept of an operator on a value is the exact one, clamped.  Where one operator is applied with the
same literal over and over, it is enough to clamp the last result.
-/

namespace LessonDeck

namespace Arith

/-- The result of an operator on integers; division drops the fraction. -/
def result (op : Arith) (left right : ℤ) : ℤ :=
  match op with
  | add => left + right
  | sub => left - right
  | mul => left * right
  | div => left.tdiv right

/-! ## Operators on words -/

theorem bounded_ofIntClamp (z : ℤ) :
    Value.bounded (Int64.ofIntClamp z).toInt = Value.bounded z := by
  have hmin : Int64.minValue.toInt ≤ Value.least.toInt := by decide
  have hmax : Value.greatest.toInt ≤ Int64.maxValue.toInt := by decide
  rw [Int64.ofIntClamp]
  split
  · next hlow =>
    split
    · next hhigh => rw [Int64.toInt_ofIntLE]
    · next hhigh =>
      rw [Value.bounded_of_greatest_le hmax,
        Value.bounded_of_greatest_le (hmax.trans (not_le.mp hhigh).le)]
  · next hlow =>
    rw [Value.bounded_of_le_least hmin,
      Value.bounded_of_le_least ((not_le.mp hlow).le.trans hmin)]

theorem tdiv_mem {x : ℤ} (hx : Value.least.toInt ≤ x ∧ x ≤ Value.greatest.toInt) (c : ℤ) :
    Value.least.toInt ≤ x.tdiv c ∧ x.tdiv c ≤ Value.greatest.toInt := by
  have habs : (x.tdiv c).natAbs ≤ x.natAbs := Int.natAbs_tdiv_le_natAbs x c
  rw [Value.toInt_least, Value.toInt_greatest] at hx ⊢
  omega

/-- What is kept of an operator on a value of the range. -/
theorem toInt_clamp_of_apply {op : Arith} {left right v : Int64} (hleft : Value.InRange left)
    (h : op.apply left right = some v) :
    (Value.clamp v).toInt = Value.bounded (op.result left.toInt right.toInt) := by
  rw [Value.toInt_clamp]
  cases op with
  | add =>
      obtain rfl := Option.some.inj h
      exact bounded_ofIntClamp (left.toInt + right.toInt)
  | sub =>
      obtain rfl := Option.some.inj h
      exact bounded_ofIntClamp (left.toInt - right.toInt)
  | mul =>
      obtain rfl := Option.some.inj h
      exact bounded_ofIntClamp (left.toInt * right.toInt)
  | div =>
      rw [apply] at h
      split at h
      · exact nomatch h
      · obtain rfl := Option.some.inj h
        have hmin : left ≠ Int64.minValue := by
          rintro rfl
          exact absurd hleft (by decide)
        rw [Int64.toInt_div_of_ne_left left right hmin, result]

/-! ## The same operator over and over -/

/-- The result of an operator with one literal that is applied so many times and clamped once. -/
def repeated (op : Arith) (x c : ℤ) (n : ℕ) : ℤ :=
  match op with
  | add => Value.bounded (x + n * c)
  | sub => Value.bounded (x - n * c)
  | mul => Value.bounded (x * c ^ n)
  | div => x.tdiv (c ^ n)

/-- Fractions may be dropped at each of two divisions or at one by the product. -/
theorem tdiv_tdiv (a b c : ℤ) : (a.tdiv b).tdiv c = a.tdiv (b * c) := by
  have hnat : ∀ a b c : ℕ, ((a : ℤ).tdiv b).tdiv c = (a : ℤ).tdiv (b * c) := by
    intro a b c
    rw [← Int.ofNat_tdiv, ← Int.ofNat_tdiv, ← Nat.cast_mul, ← Int.ofNat_tdiv,
      Nat.div_div_eq_div_mul]
  obtain ⟨a, rfl | rfl⟩ := a.eq_nat_or_neg <;> obtain ⟨b, rfl | rfl⟩ := b.eq_nat_or_neg <;>
    obtain ⟨c, rfl | rfl⟩ := c.eq_nat_or_neg <;>
    simp only [Int.neg_tdiv, Int.tdiv_neg, neg_mul, mul_neg, neg_neg, hnat]

variable {x : ℤ} (hx : Value.least.toInt ≤ x ∧ x ≤ Value.greatest.toInt)

include hx

theorem repeated_zero (op : Arith) (c : ℤ) : op.repeated x c 0 = x := by
  have hbounded : Value.bounded x = x := Value.bounded_of_mem hx.1 hx.2
  cases op <;> simp [repeated, hbounded]

/-- All steps of a run go in one direction, up or down. -/
theorem bounded_steps (c : ℤ) (n : ℕ) :
    Value.bounded (Value.bounded (x + n * c) + c) = Value.bounded (x + (n + 1 : ℕ) * c) := by
  have hsteps : 0 ≤ (n : ℤ) * c ∧ 0 ≤ c ∨ (n : ℤ) * c ≤ 0 ∧ c ≤ 0 := by
    rcases le_total 0 c with hc | hc
    · exact .inl ⟨mul_nonneg n.cast_nonneg hc, hc⟩
    · exact .inr ⟨mul_nonpos_of_nonneg_of_nonpos n.cast_nonneg hc, hc⟩
  rw [Value.bounded_add hx.1 hx.2 hsteps, Nat.cast_succ, add_assoc, add_one_mul]

theorem repeated_succ (op : Arith) (c : ℤ) (n : ℕ) :
    Value.bounded (op.result (op.repeated x c n) c) = op.repeated x c (n + 1) := by
  cases op with
  | add => exact bounded_steps hx c n
  | sub =>
      have hsteps := bounded_steps hx (-c) n
      simp only [mul_neg, ← sub_eq_add_neg] at hsteps
      exact hsteps
  | mul =>
      rw [result, repeated, repeated, Value.bounded_mul, pow_succ, mul_assoc]
  | div =>
      have hmem := tdiv_mem hx (c ^ (n + 1))
      rw [result, repeated, repeated, tdiv_tdiv, ← pow_succ, Value.bounded_of_mem hmem.1 hmem.2]

end Arith

end LessonDeck
