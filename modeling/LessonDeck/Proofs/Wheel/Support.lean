import LessonDeck.Proofs.Exact
import LessonDeck.Wheel.Projection
/-!
# Which colors a draw can give

A color without weight takes no part when zeros are skipped, and a color without probability is not
drawn.  The exception is a table without any weight, for which every color is equally likely.
-/

namespace LessonDeck

open Scalar

namespace Wheel

theorem Sharing.get_pin {α : Type} (s : Sharing α) (colors : List Color) (share : Color → α)
    (c : Color) :
    (s.pin colors share).get c = if c ∈ colors then some (share c) else s.pinned.get c := by
  rw [Sharing.pin, ByColor.get_tabulate]

section Generic

variable {α : Type} [Scalar α]

/-- Sharing the mass out changes no entry of a color that is not free. -/
theorem Sharing.get_settle_of_notMem (weights : ByColor α) (b : Bounds α) {c : Color}
    (rounds : ℕ) (free : List Color) (s : Sharing α) (hc : c ∉ free) :
    (settle weights b rounds free s).pinned.get c = s.pinned.get c := by
  induction rounds generalizing free s with
  | zero => rfl
  | succ rounds ih =>
      have hpin : ∀ colors share, colors ⊆ free →
          (s.pin colors share).get c = s.pinned.get c := by
        intro colors share hsub
        rw [get_pin, if_neg fun h ↦ hc (hsub h)]
      have hfilter : ∀ p : Color → Bool, c ∉ free.filter p :=
        fun p h ↦ hc (List.filter_subset_self free h)
      rw [settle]
      split
      · rfl
      · dsimp only
        split
        · exact hpin free _ (List.Subset.refl free)
        · split
          · rw [ih _ _ (hfilter _)]
            exact hpin _ _ (List.filter_subset_self free)
          · rw [ih _ _ (hfilter _)]
            exact hpin _ _ (List.filter_subset_self free)

/-- A color without probability is not drawn, unless it is the color that stands in when no color
has any. -/
theorem sampleFrom_ne {p : ByColor α} {c : Color} (hc : c ≠ .green) (hp : ¬ 0 < weight p c)
    (r cumulative : α) (last : Option Color) (colors : List Color) (hlast : last ≠ some c) :
    sampleFrom p r cumulative last colors ≠ c := by
  induction colors generalizing cumulative last with
  | nil =>
      cases last with
      | none => exact hc.symm
      | some d => exact fun h ↦ hlast (congrArg some h)
  | cons d colors ih =>
      rw [sampleFrom]
      split
      · next hd =>
        have hne : d ≠ c := fun h ↦ hp (h ▸ hd)
        dsimp only
        split
        · exact hne
        · exact ih _ _ fun h ↦ hne (Option.some.inj h)
      · exact ih _ _ hlast

theorem sample_ne {p : ByColor α} {c : Color} (hc : c ≠ .green) (hp : ¬ 0 < weight p c) (r : α) :
    sample p r ≠ c :=
  sampleFrom_ne hc hp r 0 none Color.all nofun

end Generic

theorem weight_pos_iff {weights : ByColor ℚ} {c : Color} :
    0 < weight weights c ↔ 0 < weights.get c :=
  positivePart_pos_iff

theorem weight_of_nonneg {weights : ByColor ℚ} {c : Color} (h : 0 ≤ weights.get c) :
    weight weights c = weights.get c := by
  rw [weight, positivePart_eq_max, max_eq_left h]

theorem mem_active_iff {weights : ByColor ℚ} {c : Color} :
    c ∈ active weights true ↔ 0 < weights.get c := by
  rw [active, List.mem_filter, ← weight_pos_iff]
  simp [mem_all]

theorem active_eq_nil_iff {weights : ByColor ℚ} :
    active weights true = [] ↔ ∀ c, weights.get c ≤ 0 := by
  rw [List.eq_nil_iff_forall_not_mem]
  exact forall_congr' fun c ↦ by rw [mem_active_iff, not_lt]

/-- Where some color has weight, a color without weight gets no probability. -/
theorem get_project_eq_zero {weights : ByColor ℚ} (b : Bounds ℚ) {c : Color}
    (hc : weights.get c ≤ 0) (hsome : ∃ d, 0 < weights.get d) :
    (project weights b true).get c = 0 := by
  have hactive : c ∉ active weights true := fun h ↦ hc.not_gt (mem_active_iff.mp h)
  have hne : active weights true ≠ [] := by
    intro h
    obtain ⟨d, hd⟩ := hsome
    exact (active_eq_nil_iff.mp h d).not_gt hd
  have hpinned : (Sharing.among weights b (active weights true)).pinned.get c = none := by
    rw [Sharing.among, Sharing.get_settle_of_notMem weights _ _ _ _ hactive]
    exact ByColor.get_tabulate _ c
  rw [project]
  dsimp only
  rw [if_neg (by simpa using hne), ByColor.get_tabulate, hpinned]
  split
  · exact zero_div _
  · rfl

/-- A color without weight is not drawn while another color has weight. -/
theorem sample_project_ne {weights : ByColor ℚ} (b : Bounds ℚ) {c : Color} (hgreen : c ≠ .green)
    (hc : weights.get c ≤ 0) (hsome : ∃ d, 0 < weights.get d) (r : ℚ) :
    sample (project weights b true) r ≠ c := by
  refine sample_ne hgreen ?_ r
  rw [weight_pos_iff, get_project_eq_zero b hc hsome]
  exact lt_irrefl 0

theorem project_eq_uniform {weights : ByColor ℚ} (b : Bounds ℚ) (h : ∀ c, weights.get c ≤ 0) :
    project weights b true = uniform := by
  rw [project]
  dsimp only
  rw [active_eq_nil_iff.mpr h]
  rfl

/-- If every color is equally likely, some draw gives it. -/
theorem exists_sample_uniform (c : Color) :
    ∃ r : ℚ, 0 ≤ r ∧ r < 1 ∧ sample uniform r = c := by
  cases c with
  | green => exact ⟨0, by norm_num, by norm_num, by decide +kernel⟩
  | red => exact ⟨1 / 2, by norm_num, by norm_num, by decide +kernel⟩
  | blue => exact ⟨3 / 4, by norm_num, by norm_num, by decide +kernel⟩
  | yellow => exact ⟨9 / 10, by norm_num, by norm_num, by decide +kernel⟩

/-- A draw from a distribution that is all one color gives that color. -/
theorem sample_single (c : Color) {r : ℚ} (hr : r ≤ 1) :
    sample (ByColor.tabulate fun d ↦ if d = c then 1 else 0) r = c := by
  have hweight : ∀ d, weight (ByColor.tabulate fun d ↦ if d = c then (1 : ℚ) else 0) d =
      if d = c then 1 else 0 := by
    intro d
    rw [weight, ByColor.get_tabulate, positivePart_eq_max]
    split <;> norm_num
  cases c <;> simp [sample, Color.all, sampleFrom, hweight, hr]

end Wheel

end LessonDeck
