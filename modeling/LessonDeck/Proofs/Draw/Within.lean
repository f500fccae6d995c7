import Mathlib
import LessonDeck.Draw.Source
/-!
# Numbers of a range

A draw that is scaled to a range falls into it: a word is less than two to the power of 64, so its
product with the length of the range, divided by that power, is less than the length.
-/

namespace LessonDeck.Draw.Source

variable {span : ℕ}

theorem lt_of_scaled? {draw : UInt64} {n : ℕ} (hspan : 0 < span)
    (h : scaled? span draw = some n) : n < span := by
  rw [scaled?] at h
  split at h
  · obtain rfl := Option.some.inj h
    have hdraw : draw.toNat < Nat.pow 2 64 := draw.toNat_lt
    refine Nat.div_lt_of_lt_mul ?_
    exact Nat.mul_lt_mul_of_pos_right hdraw hspan
  · exact nomatch h

theorem nextBelow_lt (hspan : 0 < span) (tries : ℕ) (s : Source) :
    (nextBelow span tries s).1 < span := by
  induction tries generalizing s with
  | zero => exact hspan
  | succ tries ih =>
      rw [nextBelow]
      dsimp only
      split
      · next n hn => exact lt_of_scaled? hspan hn
      · exact ih _

theorem nextInRange_mem (lo hi : ℕ) (h : lo ≤ hi) (s : Source) :
    lo ≤ (nextInRange lo hi s).1 ∧ (nextInRange lo hi s).1 ≤ hi := by
  have hspan : 0 < hi - lo + 1 := Nat.succ_pos (hi - lo)
  have hlt := nextBelow_lt hspan patience s
  rw [nextInRange]
  dsimp only
  omega

end LessonDeck.Draw.Source
