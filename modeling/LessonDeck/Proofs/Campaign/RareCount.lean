import LessonDeck.Proofs.Campaign.Exclusion
/-!
# How often yellow comes

From any state of a campaign the rounds that are left fit only so many yellows, and the target asks
for only so many more.  The smaller of the two is what spins alone will bring: the rules keep the
forecast as it is from one spin to the next, and it is fulfilled when no round is left.
-/

namespace LessonDeck

namespace Campaign

section Forecast

variable {α : Type}

/-- Whether yellow came last. -/
def lastIsRare (w : Campaign α) : Bool :=
  w.history.getLast? == some .yellow

/-- How often yellow will have come at the end if the rest of the rounds is spun. -/
def forecast (w : Campaign α) : ℕ :=
  w.rareCount + min (w.rareTarget - w.rareCount) (rareCapacity w.remaining w.lastIsRare)

theorem remaining_pos {w : Campaign α} (hrun : w.isFinished = false) : 0 < w.remaining :=
  Nat.sub_pos_of_lt (isFinished_eq_false_iff.mp hrun)

theorem remaining_record (w : Campaign α) (c : Color) :
    (w.record c).remaining = w.remaining - 1 :=
  Nat.sub_succ w.settings.totalRounds w.round

theorem lastIsRare_record (w : Campaign α) (c : Color) :
    (w.record c).lastIsRare = (c == .yellow) := by
  change ((w.history ++ [c]).getLast? == some .yellow) = _
  rw [List.getLast?_concat]
  rfl

theorem forecast_of_isFinished {w : Campaign α} (h : w.isFinished = true) :
    w.forecast = w.rareCount := by
  have hremaining : w.remaining = 0 := Nat.sub_eq_zero_of_le (isFinished_iff.mp h)
  rw [forecast, hremaining]
  cases w.lastIsRare <;> simp [rareCapacity]

theorem forecast_record_yellow {w : Campaign α} (hrun : w.isFinished = false)
    (hlast : w.lastIsRare = false) (hmet : w.rareCount < w.rareTarget) :
    (w.record .yellow).forecast = w.forecast := by
  have hpos := remaining_pos hrun
  have hcount : (w.record .yellow).rareCount = w.rareCount + 1 := rfl
  have htarget : (w.record .yellow).rareTarget = w.rareTarget := rfl
  rw [forecast, forecast, remaining_record, lastIsRare_record, hcount, htarget, hlast]
  simp only [rareCapacity, beq_self_eq_true, if_true, Bool.false_eq_true, if_false]
  omega

/-- A color other than yellow wastes no room that is needed, unless yellow must come. -/
theorem forecast_record_of_ne {w : Campaign α} (hrun : w.isFinished = false)
    (hreq : w.rareIsRequired = false) {c : Color} (hc : c ≠ .yellow) :
    (w.record c).forecast = w.forecast := by
  have hpos := remaining_pos hrun
  have hcount : (w.record c).rareCount = w.rareCount := if_neg hc
  have htarget : (w.record c).rareTarget = w.rareTarget := rfl
  have hother : (c == .yellow) = false := by simpa using hc
  rw [forecast, forecast, remaining_record, lastIsRare_record, hcount, htarget, hother]
  cases hlast : w.lastIsRare with
  | true =>
      simp only [rareCapacity, if_true, Bool.false_eq_true, if_false]
      omega
  | false =>
      have hroom : ¬ (0 < w.rareTarget - w.rareCount ∧
          (w.remaining + 1) / 2 ≤ w.rareTarget - w.rareCount) := by
        rintro ⟨hdeficit, hroom⟩
        have htrue : w.rareIsRequired = true :=
          rareIsRequired_iff.mpr ⟨hdeficit, by simpa [lastIsRare] using hlast, hroom⟩
        exact Bool.false_ne_true (hreq.symm.trans htrue)
      simp only [rareCapacity, Bool.false_eq_true, if_false]
      omega

end Forecast

/-- A spin that keeps to the exclusions leaves the forecast as it is. -/
theorem forecast_spin {w after : Campaign ℚ} (hkeeps : w.KeepsExclusions) {r : ℚ}
    {result : CampaignSpin ℚ} (hr : 0 ≤ r ∧ r < 1) (h : w.spin r = (.ok result, after)) :
    after.forecast = w.forecast := by
  have hfree := hkeeps r result after hr.1 hr.2 h
  obtain ⟨hrun, rfl, rfl⟩ := spin_eq_ok_iff.mp h
  change ¬ w.Excludes (Wheel.sample w.plan.probabilities r) at hfree
  by_cases hc : Wheel.sample w.plan.probabilities r = .yellow
  · rw [hc] at hfree ⊢
    obtain ⟨hlast, hmet⟩ := not_or.mp hfree
    refine forecast_record_yellow hrun ?_ ?_
    · simpa [lastIsRare, neverRepeats] using hlast
    · simpa using hmet
  · refine forecast_record_of_ne hrun ?_ hc
    by_contra hreq
    rw [Bool.not_eq_false] at hreq
    refine hc ?_
    rw [probabilities_of_required hreq, Wheel.sample_single .yellow hr.2.le]

/-! ## Playing out a campaign -/

theorem remaining_lt_of_spin {α : Type} [Scalar α] {w after : Campaign α} {r : α}
    {result : CampaignSpin α} (h : w.spin r = (.ok result, after)) :
    after.remaining < w.remaining := by
  obtain ⟨hrun, rfl, -⟩ := spin_eq_ok_iff.mp h
  rw [remaining_record]
  exact Nat.sub_lt (remaining_pos hrun) Nat.one_pos

/-- Spins with one draw after the other until no round is left. -/
def playOut {α : Type} [Scalar α] (draws : ℕ → α) (w : Campaign α) : Campaign α :=
  match h : w.spin (draws 0) with
  | (.ok _, after) => playOut (fun k ↦ draws (k + 1)) after
  | (.error _, after) => after
termination_by w.remaining
decreasing_by exact remaining_lt_of_spin h

theorem isFinished_playOut {α : Type} [Scalar α] (draws : ℕ → α) (w : Campaign α) :
    (w.playOut draws).isFinished = true := by
  induction draws, w using playOut.induct with
  | case1 draws w _ after h ih =>
      rw [playOut, h]
      exact ih
  | case2 draws w e after h =>
      obtain ⟨hfinished, rfl⟩ := of_spin_eq_error h
      rw [playOut, h]
      exact hfinished

theorem Reachable.playOut {s : CampaignSettings ℚ} {w : Campaign ℚ} {draws : ℕ → ℚ}
    (hw : Reachable s w) (hdraws : ∀ k, 0 ≤ draws k ∧ draws k < 1) :
    Reachable s (w.playOut draws) := by
  induction draws, w using playOut.induct with
  | case1 draws w _ after h ih =>
      rw [Campaign.playOut, h]
      exact ih (hw.spin (hdraws 0) h) fun k ↦ hdraws (k + 1)
  | case2 draws w e after h =>
      obtain ⟨-, rfl⟩ := of_spin_eq_error h
      rw [Campaign.playOut, h]
      exact hw

theorem forecast_playOut {s : CampaignSettings ℚ} {w : Campaign ℚ} {draws : ℕ → ℚ}
    (hw : Reachable s w) (hdraws : ∀ k, 0 ≤ draws k ∧ draws k < 1)
    (hbase : 0 < s.base.filled.get .green ∨ 0 < s.base.filled.get .red) :
    (w.playOut draws).forecast = w.forecast := by
  induction draws, w using playOut.induct with
  | case1 draws w _ after h ih =>
      rw [playOut, h]
      have hafter := ih (hw.spin (hdraws 0) h) fun k ↦ hdraws (k + 1)
      rw [hafter]
      exact forecast_spin (keepsExclusions_of_base_pos hw hbase) (hdraws 0) h
  | case2 draws w e after h =>
      obtain ⟨-, rfl⟩ := of_spin_eq_error h
      rw [playOut, h]

/-- The target always fits a campaign that has not begun. -/
theorem forecast_of_history_eq_nil {s : CampaignSettings ℚ} {w : Campaign ℚ} (hw : InStep s w)
    (h : w.history = []) : w.forecast = LessonDeck.rareTarget w.settings.totalRounds := by
  have hround : w.round = 0 := by rw [hw.round, h, List.length_nil]
  have hcount : w.rareCount = 0 := by rw [hw.rareCount, h, List.count_nil]
  have hlast : w.lastIsRare = false := by rw [lastIsRare, h]; rfl
  have hfits : LessonDeck.rareTarget w.settings.totalRounds ≤ (w.settings.totalRounds + 1) / 2 :=
    min_le_right _ _
  rw [forecast, remaining, hround, hcount, hlast, hw.rareTarget]
  simp only [rareCapacity, Bool.false_eq_true, if_false]
  omega

/-- If only spins follow, yellow comes as often as it came so far, and then as often as the target
still asks for or as fits into the rounds left, whichever is less.  A campaign that begins so meets
its target exactly. -/
theorem count_yellow_playOut {s : CampaignSettings ℚ} {w : Campaign ℚ} (hw : Reachable s w)
    (hbase : 0 < s.base.filled.get .green ∨ 0 < s.base.filled.get .red) {draws : ℕ → ℚ}
    (hdraws : ∀ k, 0 ≤ draws k ∧ draws k < 1) :
    (w.playOut draws).isFinished = true ∧
      (w.playOut draws).history.count .yellow =
        w.rareCount + min (w.rareTarget - w.rareCount)
          (rareCapacity w.remaining (w.history.getLast? == some .yellow)) ∧
      (w.history = [] → (w.playOut draws).history.count .yellow =
        LessonDeck.rareTarget w.settings.totalRounds) := by
  have hfinished := isFinished_playOut draws w
  have hcount : (w.playOut draws).history.count .yellow = w.forecast := by
    rw [← (hw.playOut hdraws).inStep.rareCount, ← forecast_of_isFinished hfinished]
    exact forecast_playOut hw hdraws hbase
  refine ⟨hfinished, hcount, fun h ↦ ?_⟩
  rw [hcount, forecast_of_history_eq_nil hw.inStep h]

/-- Three rounds of five are set to green by hand, so that only one of two yellows still fits. -/
theorem count_yellow_playOut_cornered :
    ∃ w, Reachable CampaignSettings.exactStandard w ∧ w.history = [.green, .green, .green] ∧
      w.rareTarget = 2 ∧ w.remaining = 2 ∧
      (w.playOut fun _ ↦ 1 / 2).history.count .yellow = 1 := by
  have hs : CampaignSettings.exactStandard.check = .ok () := by decide +kernel
  have hcreate : Reachable CampaignSettings.exactStandard (ofSettings .exactStandard) :=
    .create (create_eq_ok_iff.mpr ⟨hs, rfl⟩)
  have hreach := (((hcreate.reset 5).record (by decide +kernel) .green).record
    (by decide +kernel) .green).record (by decide +kernel) .green
  have hdraws : ∀ _ : ℕ, (0 : ℚ) ≤ 1 / 2 ∧ (1 / 2 : ℚ) < 1 := fun _ ↦ by norm_num
  have hcount := (count_yellow_playOut hreach (.inl (by decide +kernel)) hdraws).2.1
  exact ⟨_, hreach, rfl, by decide +kernel, by decide +kernel, hcount⟩

end Campaign

end LessonDeck
