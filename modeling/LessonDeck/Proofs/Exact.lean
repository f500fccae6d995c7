import Mathlib
import LessonDeck.Wheel.Settings
/-!
# Exact arithmetic

The wheels are generic in their numbers.  Over the rationals every number is finite, sums may be
taken in any order, and the slack of comparisons is the decimal that the doubles only come near to.
-/

namespace LessonDeck

open Scalar

instance : Scalar ℚ where
  decidableLt _ _ := inferInstance
  decidableLe _ _ := inferInstance
  epsilon := 1 / 1000000000000
  isFinite _ := true

instance : Fintype Color where
  elems := {.green, .red, .blue, .yellow}
  complete c := by cases c <;> decide

theorem mem_all (c : Color) : c ∈ Color.all := by
  cases c <;> decide

/-- Every round has one color. -/
theorem sum_count_history (history : List Color) :
    (Color.all.map fun c ↦ history.count c).sum = history.length := by
  induction history with
  | nil => rfl
  | cons c history ih =>
      rw [List.length_cons, ← ih]
      cases c <;> simp [Color.all] <;> omega

theorem sum_color (f : Color → ℚ) :
    ∑ c, f c = f .green + f .red + f .blue + f .yellow := by
  change ∑ c ∈ {.green, .red, .blue, .yellow}, f c = _
  rw [Finset.sum_insert (by decide), Finset.sum_insert (by decide),
    Finset.sum_insert (by decide), Finset.sum_singleton]
  ring

theorem sumOf_eq_sum {β : Type} (f : β → ℚ) (bs : List β) :
    sumOf f bs = (bs.map f).sum := by
  rw [List.sum_eq_foldl, List.foldl_map]
  rfl

theorem sumOf_all (f : Color → ℚ) : sumOf f Color.all = ∑ c, f c := by
  rw [sumOf_eq_sum, sum_color]
  simp only [Color.all, List.map_cons, List.map_nil, List.sum_cons, List.sum_nil]
  ring

/-- A sum over the colors that pass a test is a sum over all colors, the others counting nothing. -/
theorem sumOf_filter_all (f : Color → ℚ) (p : Color → Bool) :
    sumOf f (Color.all.filter p) = ∑ c, if p c then f c else 0 := by
  rw [← sumOf_all, sumOf_eq_sum, sumOf_eq_sum]
  induction Color.all with
  | nil => rfl
  | cons c cs ih =>
      by_cases hc : p c
      · simp [hc, ih]
      · simp [hc, ih]

theorem sumOf_eq_sum_toFinset (f : Color → ℚ) {cs : List Color} (h : cs.Nodup) :
    sumOf f cs = ∑ c ∈ cs.toFinset, f c := by
  rw [sumOf_eq_sum, List.sum_toFinset f h]

theorem sumOf_pos {f : Color → ℚ} {cs : List Color} (hf : ∀ c ∈ cs, 0 < f c) (hcs : cs ≠ []) :
    0 < sumOf f cs := by
  rw [sumOf_eq_sum]
  refine List.sum_pos _ ?_ (by simpa using hcs)
  intro x hx
  obtain ⟨c, hc, rfl⟩ := List.mem_map.mp hx
  exact hf c hc

theorem epsilon_pos : (0 : ℚ) < epsilon := by
  norm_num [epsilon]

theorem lesser_eq_min (x y : ℚ) : lesser x y = min x y := by
  by_cases hxy : x < y
  · rw [lesser, if_pos hxy, min_eq_left hxy.le]
  · rw [lesser, if_neg hxy, min_eq_right (not_lt.mp hxy)]

theorem greater_eq_max (x y : ℚ) : greater x y = max x y := by
  by_cases hyx : y < x
  · rw [greater, if_pos hyx, max_eq_left hyx.le]
  · rw [greater, if_neg hyx, max_eq_right (not_lt.mp hyx)]

theorem positivePart_eq_max (x : ℚ) : positivePart x = max x 0 := by
  by_cases hx : 0 < x
  · rw [positivePart, if_pos hx, max_eq_left hx.le]
  · rw [positivePart, if_neg hx, max_eq_right (not_lt.mp hx)]

theorem positivePart_nonneg (x : ℚ) : 0 ≤ positivePart x := by
  rw [positivePart_eq_max]
  exact le_max_right x 0

theorem positivePart_le_positivePart {x y : ℚ} (h : x ≤ y) : positivePart x ≤ positivePart y := by
  rw [positivePart_eq_max, positivePart_eq_max]
  exact max_le_max_right 0 h

theorem positivePart_pos_iff {x : ℚ} : 0 < positivePart x ↔ 0 < x := by
  rw [positivePart_eq_max, lt_max_iff]
  simp

end LessonDeck
