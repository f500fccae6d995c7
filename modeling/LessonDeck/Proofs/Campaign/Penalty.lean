import LessonDeck.Proofs.Campaign.Reachable
import LessonDeck.Proofs.Wheel.Projection
/-!
# The penalty for a repeat

The penalty takes a share of its weight from green or red, when it came last, and gives it to the
other colors in proportion.  The greater the penalty, the less weight is left and the more the
others have, so that by the fairness of the projection the last color is no likelier.  Only the full
penalty changes which colors take part; then the last color is not drawn at all.
-/

namespace LessonDeck

open Scalar

namespace Campaign

section Penalize

variable {weights : ByColor ℚ} {c : Color} {q q₁ q₂ : ℚ}

theorem get_penalize_le (hweights : ∀ d, 0 ≤ weights.get d) (hothers : 0 < others weights c)
    (hq : 0 ≤ q₁) (hle : q₁ ≤ q₂) :
    (penalize q₂ c weights).get c ≤ (penalize q₁ c weights).get c := by
  rw [get_penalize hweights hothers hq, get_penalize hweights hothers (hq.trans hle), if_pos rfl,
    if_pos rfl]
  exact mul_le_mul_of_nonneg_left (sub_le_sub_left hle 1) (hweights c)

theorem le_get_penalize (hweights : ∀ d, 0 ≤ weights.get d) (hothers : 0 < others weights c)
    (hq : 0 ≤ q₁) (hle : q₁ ≤ q₂) {d : Color} (hd : d ≠ c) :
    (penalize q₁ c weights).get d ≤ (penalize q₂ c weights).get d := by
  rw [get_penalize hweights hothers hq, get_penalize hweights hothers (hq.trans hle), if_neg hd,
    if_neg hd]
  refine mul_le_mul_of_nonneg_left ?_ (hweights d)
  have hgiven := mul_le_mul_of_nonneg_left hle (hweights c)
  exact add_le_add_right (div_le_div_of_nonneg_right hgiven hothers.le) 1

/-- The penalty takes no other color out of the draw, nor brings one in. -/
theorem get_penalize_pos_iff (hweights : ∀ d, 0 ≤ weights.get d) (hothers : 0 < others weights c)
    (hq : 0 ≤ q) {d : Color} (hd : d ≠ c) :
    0 < (penalize q c weights).get d ↔ 0 < weights.get d := by
  rw [get_penalize hweights hothers hq, if_neg hd]
  refine mul_pos_iff_of_pos_right ?_
  have := div_nonneg (mul_nonneg (hweights c) hq) hothers.le
  linarith

/-- Of two penalties the stronger one makes the color no likelier. -/
theorem get_project_penalize_le {b : Wheel.Bounds ℚ} (hlow : 0 ≤ b.low)
    (hweights : ∀ d, 0 ≤ weights.get d) (hq : 0 ≤ q₁) (hle : q₁ ≤ q₂) :
    (Wheel.project (penalize q₂ c weights) b true).get c ≤
      (Wheel.project (penalize q₁ c weights) b true).get c + Wheel.tolerance := by
  have htolerance : 0 < Wheel.tolerance := by norm_num [Wheel.tolerance]
  by_cases hothers : 0 < others weights c
  · have hq₂ := hq.trans hle
    obtain ⟨d, hd, hpos⟩ := others_pos_iff.mp hothers
    have hlower := get_penalize_le hweights hothers hq hle
    by_cases hleft : 0 < (penalize q₂ c weights).get c
    · -- both draws take place among the same colors
      have hactive : Wheel.active (penalize q₂ c weights) true =
          Wheel.active (penalize q₁ c weights) true := by
        refine List.filter_congr fun e _ ↦ ?_
        simp only [Wheel.weight_pos_iff]
        by_cases he : e = c
        · rw [he, decide_eq_true hleft, decide_eq_true (hleft.trans_le hlower)]
        · simp only [get_penalize_pos_iff hweights hothers hq he,
            get_penalize_pos_iff hweights hothers hq₂ he]
      refine Wheel.get_project_le_of_lighter hlow hactive
        (Wheel.mem_active_iff.mpr (hleft.trans_le hlower)) (positivePart_le_positivePart hlower)
        fun e he ↦ positivePart_le_positivePart (le_get_penalize hweights hothers hq hle he)
    · have hsome : ∀ q, 0 ≤ q → ∃ d, 0 < (penalize q c weights).get d :=
        fun q hq ↦ ⟨d, (get_penalize_pos_iff hweights hothers hq hd).mpr hpos⟩
      have hactive : Wheel.active (penalize q₁ c weights) true ≠ [] :=
        Wheel.active_ne_nil fun _ ↦ hsome q₁ hq
      have hfair := Wheel.fair_project hlow hactive
      rw [Wheel.get_project_eq_zero b (not_lt.mp hleft) (hsome q₂ hq₂)]
      have := hfair.nonneg c
      linarith
  · rw [penalize_of_others_nonpos q₁ (not_lt.mp hothers),
      penalize_of_others_nonpos q₂ (not_lt.mp hothers)]
    linarith

end Penalize

/-- A campaign as it would be with another penalty for a repeat. -/
def withPenalty (w : Campaign ℚ) (q : ℚ) : Campaign ℚ :=
  { w with settings := { w.settings with repeatPenalty := q } }

theorem penalizeRepeat_of_getLast? {w : Campaign ℚ} {c : Color}
    (hlast : w.history.getLast? = some c) (hc : neverRepeats c = false) (weights : ByColor ℚ) :
    w.penalizeRepeat weights = penalize w.settings.repeatPenalty c weights := by
  rw [penalizeRepeat, hlast]
  simp [hc]

theorem shaped_withPenalty {w : Campaign ℚ} {c : Color} (hlast : w.history.getLast? = some c)
    (hc : neverRepeats c = false) (q : ℚ) :
    (w.withPenalty q).shaped = penalize q c (w.rebalance w.admitted).1 :=
  penalizeRepeat_of_getLast? (w := w.withPenalty q) hlast hc _

/-- While green or red came last and rounds are left, a stronger penalty for a repeat makes that
color no likelier in the next draw.  Where yellow must come, it is out of the question either
way. -/
theorem penalty_never_favors {s : CampaignSettings ℚ} {w : Campaign ℚ} (hw : Reachable s w)
    (hrun : w.isFinished = false) {c : Color} (hlast : w.history.getLast? = some c)
    (hc : c = .green ∨ c = .red) {q₁ q₂ : ℚ} (hq₁ : 0 ≤ q₁) (hle : q₁ ≤ q₂) :
    ∃ p₁ p₂, (w.withPenalty q₁).probabilities = .ok p₁ ∧
      (w.withPenalty q₂).probabilities = .ok p₂ ∧ p₂.get c ≤ p₁.get c + Wheel.tolerance ∧
      (w.rareIsRequired = true → p₁.get c = 0 ∧ p₂.get c = 0) := by
  have hother : neverRepeats c = false := by rcases hc with rfl | rfl <;> rfl
  have hyellow : c ≠ .yellow := by rcases hc with rfl | rfl <;> decide
  refine ⟨_, _, probabilities_eq_ok_iff.mpr ⟨hrun, rfl⟩, probabilities_eq_ok_iff.mpr ⟨hrun, rfl⟩, ?_⟩
  cases hreq : w.rareIsRequired with
  | true =>
      have hzero : ∀ q, (w.withPenalty q).plan.probabilities.get c = 0 := by
        intro q
        rw [probabilities_of_required (w := w.withPenalty q) hreq, ByColor.get_tabulate,
          if_neg hyellow]
      rw [hzero, hzero]
      exact ⟨by norm_num [Wheel.tolerance], fun _ ↦ ⟨rfl, rfl⟩⟩
  | false =>
      have hprob : ∀ q, (w.withPenalty q).plan.probabilities =
          Wheel.project (penalize q c (w.rebalance w.admitted).1) w.settings.bounds true := by
        intro q
        rw [probabilities_of_not_required (w := w.withPenalty q) hreq,
          shaped_withPenalty hlast hother]
        rfl
      refine ⟨?_, fun h ↦ absurd h Bool.false_ne_true⟩
      rw [hprob, hprob]
      exact get_project_penalize_le hw.sound.bounds.low_nonneg
        (rebalance_nonneg hw.sound (admitted_nonneg hw.sound)) hq₁ hle

/-- After red has come, the full penalty instead of none. -/
theorem penalty_never_favors_red :
    ∃ w, Reachable CampaignSettings.exactStandard w ∧ w.isFinished = false ∧
      w.history.getLast? = some .red ∧
      ∃ p₁ p₂, (w.withPenalty 0).probabilities = .ok p₁ ∧ (w.withPenalty 1).probabilities = .ok p₂ ∧
        p₂.get .red ≤ p₁.get .red + Wheel.tolerance := by
  have hs : CampaignSettings.exactStandard.check = .ok () := by decide +kernel
  have hcreate : Reachable CampaignSettings.exactStandard (ofSettings .exactStandard) :=
    .create (create_eq_ok_iff.mpr ⟨hs, rfl⟩)
  have hw := hcreate.record (by decide +kernel) .red
  obtain ⟨p₁, p₂, h₁, h₂, hle, -⟩ := penalty_never_favors hw (by decide +kernel) rfl (.inr rfl)
    (show (0 : ℚ) ≤ 0 by norm_num) (show (0 : ℚ) ≤ 1 by norm_num)
  exact ⟨_, hw, by decide +kernel, rfl, p₁, p₂, h₁, h₂, hle⟩

end Campaign

end LessonDeck
