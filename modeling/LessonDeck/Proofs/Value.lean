import Mathlib
import LessonDeck.Value
/-!
# The range of values

Clamping a word puts it into the range and leaves it alone if it is there already.  Over the integers
to clamp is to take the nearest number of the range.  Steps in one direction that are clamped one by
one end where they would end if only the last was, and so do factors, since the range reaches as far
below zero as above.
-/

namespace LessonDeck.Value

/-- What a variable may hold. -/
def InRange (v : Int64) : Prop :=
  least ≤ v ∧ v ≤ greatest

instance : DecidablePred InRange :=
  fun v ↦ inferInstanceAs (Decidable (least ≤ v ∧ v ≤ greatest))

theorem inRange_clamp (v : Int64) : InRange (clamp v) := by
  rw [clamp]
  split
  · exact ⟨by decide, by decide⟩
  · next hleast =>
    split
    · exact ⟨by decide, by decide⟩
    · next hgreatest => exact ⟨Int64.not_lt.mp hleast, Int64.not_lt.mp hgreatest⟩

theorem clamp_of_inRange {v : Int64} (h : InRange v) : clamp v = v := by
  rw [clamp, if_neg (Int64.not_lt.mpr h.1), if_neg (Int64.not_lt.mpr h.2)]

/-! ## Integers -/

/-- The number of the range that is nearest to an integer. -/
def bounded (z : ℤ) : ℤ :=
  max least.toInt (min z greatest.toInt)

theorem toInt_least : least.toInt = -1000000000 := by decide

theorem toInt_greatest : greatest.toInt = 1000000000 := by decide

theorem inRange_iff {v : Int64} :
    InRange v ↔ least.toInt ≤ v.toInt ∧ v.toInt ≤ greatest.toInt := by
  rw [InRange, Int64.le_iff_toInt_le, Int64.le_iff_toInt_le]

theorem bounded_of_mem {z : ℤ} (hleast : least.toInt ≤ z) (hgreatest : z ≤ greatest.toInt) :
    bounded z = z := by
  rw [bounded, min_eq_left hgreatest, max_eq_right hleast]

theorem bounded_of_le_least {z : ℤ} (h : z ≤ least.toInt) : bounded z = least.toInt :=
  max_eq_left ((min_le_left z _).trans h)

theorem bounded_of_greatest_le {z : ℤ} (h : greatest.toInt ≤ z) :
    bounded z = greatest.toInt := by
  have hle : least.toInt ≤ greatest.toInt := by decide
  rw [bounded, min_eq_right h, max_eq_right hle]

theorem toInt_clamp (v : Int64) : (clamp v).toInt = bounded v.toInt := by
  rw [clamp]
  split
  · next h => rw [bounded_of_le_least (Int64.lt_iff_toInt_lt.mp h).le]
  · next hleast =>
    rw [Int64.lt_iff_toInt_lt, not_lt] at hleast
    split
    · next h => rw [bounded_of_greatest_le (Int64.lt_iff_toInt_lt.mp h).le]
    · next hgreatest =>
      rw [Int64.lt_iff_toInt_lt, not_lt] at hgreatest
      rw [bounded_of_mem hleast hgreatest]

/-- The value that is nearest to an integer. -/
def nearest (z : ℤ) : Int64 :=
  Int64.ofInt (bounded z)

theorem toInt_nearest (z : ℤ) : (nearest z).toInt = bounded z := by
  have hleast : least.toInt ≤ bounded z := le_max_left _ _
  have hgreatest : bounded z ≤ greatest.toInt := max_le (by decide) (min_le_right _ _)
  rw [toInt_least] at hleast
  rw [toInt_greatest] at hgreatest
  exact Int64.toInt_ofInt_of_le (by omega) (by omega)

theorem clamp_eq_nearest (v : Int64) : clamp v = nearest v.toInt := by
  apply Int64.toInt_inj.mp
  rw [toInt_clamp, toInt_nearest]

/-- A step after others in the same direction. -/
theorem bounded_add {x d c : ℤ} (hleast : least.toInt ≤ x) (hgreatest : x ≤ greatest.toInt)
    (hd : 0 ≤ d ∧ 0 ≤ c ∨ d ≤ 0 ∧ c ≤ 0) : bounded (bounded (x + d) + c) = bounded (x + d + c) := by
  rw [bounded, bounded, bounded]
  rcases hd with hd | hd <;> omega

/-- A factor takes an end of the range to an end of it or beyond, or else to zero. -/
theorem bounded_mul (z c : ℤ) : bounded (bounded z * c) = bounded (z * c) := by
  have hopposite : least.toInt = -greatest.toInt := by decide
  have hpositive : 0 < greatest.toInt := by decide
  rcases le_or_gt z least.toInt with hlow | hlow
  · rw [bounded_of_le_least hlow]
    rcases lt_trichotomy c 0 with hc | rfl | hc
    · have hend : greatest.toInt ≤ least.toInt * c := by nlinarith
      have hbeyond : greatest.toInt ≤ z * c := by nlinarith
      rw [bounded_of_greatest_le hend, bounded_of_greatest_le hbeyond]
    · rw [mul_zero, mul_zero]
    · have hend : least.toInt * c ≤ least.toInt := by nlinarith
      have hbeyond : z * c ≤ least.toInt := by nlinarith
      rw [bounded_of_le_least hend, bounded_of_le_least hbeyond]
  · rcases le_or_gt greatest.toInt z with hhigh | hhigh
    · rw [bounded_of_greatest_le hhigh]
      rcases lt_trichotomy c 0 with hc | rfl | hc
      · have hend : greatest.toInt * c ≤ least.toInt := by nlinarith
        have hbeyond : z * c ≤ least.toInt := by nlinarith
        rw [bounded_of_le_least hend, bounded_of_le_least hbeyond]
      · rw [mul_zero, mul_zero]
      · have hend : greatest.toInt ≤ greatest.toInt * c := by nlinarith
        have hbeyond : greatest.toInt ≤ z * c := by nlinarith
        rw [bounded_of_greatest_le hend, bounded_of_greatest_le hbeyond]
    · rw [bounded_of_mem hlow.le hhigh.le]

end LessonDeck.Value
