import LessonDeck.Proofs.Campaign.Penalty
/-!
# What the fourth rule does to the weights

Red or green, when it came last, keeps exactly the share that the penalty leaves to it, provided that
it has weight and some other color has too.  Otherwise the rule changes nothing.  With the third rule
it only moves weight: a draw is made from as much as the first two rules have left.
-/

namespace LessonDeck

namespace Campaign

section Rules

variable {w : Campaign ℚ} {weights : ByColor ℚ}

theorem neverRepeats_eq_false_iff {c : Color} :
    neverRepeats c = false ↔ c = .green ∨ c = .red := by
  cases c <;> decide

/-- The color that came last is green or red and has weight to give up, and another color has
weight, so that there is somebody to take it. -/
structure Penalizes (w : Campaign ℚ) (weights : ByColor ℚ) (c : Color) : Prop where
  last : w.history.getLast? = some c
  repeats : c = .green ∨ c = .red
  pos : 0 < weights.get c
  other : ∃ d, d ≠ c ∧ 0 < weights.get d

theorem get_penalizeRepeat_of_penalizes (hs : w.settings.Sound) (h : ∀ c, 0 ≤ weights.get c)
    {c : Color} (hc : w.Penalizes weights c) :
    (w.penalizeRepeat weights).get c = weights.get c * (1 - w.settings.repeatPenalty) := by
  rw [penalizeRepeat_of_getLast? hc.last (neverRepeats_eq_false_iff.mpr hc.repeats),
    get_penalize h (others_pos_iff.mpr hc.other) hs.penalty.1, if_pos rfl]

theorem penalizeRepeat_of_not_penalizes (h : ∀ c, 0 ≤ weights.get c)
    (hnone : ∀ c, ¬ w.Penalizes weights c) : w.penalizeRepeat weights = weights := by
  cases hlast : w.history.getLast? with
  | none => rw [penalizeRepeat, hlast]
  | some c =>
      cases hc : neverRepeats c with
      | true =>
          rw [penalizeRepeat, hlast]
          exact if_pos hc
      | false =>
          rw [penalizeRepeat_of_getLast? hlast hc]
          by_cases hpos : 0 < weights.get c
          · apply penalize_of_others_nonpos
            by_contra hothers
            exact hnone c ⟨hlast, neverRepeats_eq_false_iff.mp hc, hpos,
              others_pos_iff.mp (not_le.mp hothers)⟩
          · exact penalize_of_eq_zero _ ((not_lt.mp hpos).antisymm (h c))

end Rules

/-- While rounds are left and yellow need not come, a draw is made from the weights after the first
two rules by moving weight and projecting the outcome.  The fourth rule leaves green or red exactly
the share that its penalty leaves, or does nothing at all. -/
theorem rules_move_weight {s : CampaignSettings ℚ} {w : Campaign ℚ} (hw : Reachable s w)
    (hrun : w.isFinished = false) (hreq : w.rareIsRequired = false) :
    let balanced := (w.rebalance w.admitted).1
    let after := w.penalizeRepeat balanced
    w.probabilities = .ok (Wheel.project after w.settings.bounds true) ∧
      MovesWeight w.admitted after ∧
      (∀ c, w.Penalizes balanced c →
        after.get c = balanced.get c * (1 - s.repeatPenalty)) ∧
      ((∀ c, ¬ w.Penalizes balanced c) → after = balanced) := by
  intro balanced after
  have hs := hw.sound
  have hpenalty : w.settings.repeatPenalty = s.repeatPenalty := by rw [hw.inStep.settings]
  have hbalanced : ∀ c, 0 ≤ balanced.get c := rebalance_nonneg hs (admitted_nonneg hs)
  refine ⟨?_, movesWeight_shaped hs, ?_, penalizeRepeat_of_not_penalizes hbalanced⟩
  · exact probabilities_eq_ok_iff.mpr ⟨hrun, probabilities_of_not_required hreq⟩
  · intro c hc
    rw [← hpenalty]
    exact get_penalizeRepeat_of_penalizes hs hbalanced hc

/-- After red has come. -/
theorem rules_move_weight_red :
    ∃ w, Reachable CampaignSettings.exactStandard w ∧
      MovesWeight w.admitted (w.penalizeRepeat (w.rebalance w.admitted).1) ∧
      (w.penalizeRepeat (w.rebalance w.admitted).1).get .red =
        (w.rebalance w.admitted).1.get .red *
          (1 - CampaignSettings.exactStandard.repeatPenalty) := by
  have hs : CampaignSettings.exactStandard.check = .ok () := by decide +kernel
  have hcreate : Reachable CampaignSettings.exactStandard (ofSettings .exactStandard) :=
    .create (create_eq_ok_iff.mpr ⟨hs, rfl⟩)
  have hw := hcreate.record (by decide +kernel) .red
  obtain ⟨-, hmoves, hleft, -⟩ := rules_move_weight hw (by decide +kernel) (by decide +kernel)
  refine ⟨_, hw, hmoves, hleft .red ⟨rfl, .inr rfl, by decide +kernel, .green, by decide, ?_⟩⟩
  decide +kernel

end Campaign

end LessonDeck
