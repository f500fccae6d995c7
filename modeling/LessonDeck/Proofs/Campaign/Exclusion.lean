import LessonDeck.Proofs.Campaign.Reachable
import LessonDeck.Proofs.Wheel.Support
/-!
# Colors that the rules exclude

A draw keeps to the exclusions as long as some color that is not excluded has weight.  Where none
has, all weights are zero, every color becomes equally likely, and some draw gives a color that is
excluded.  So the exclusions hold throughout exactly if green or red has weight to begin with.
-/

namespace LessonDeck

namespace Campaign

/-- No draw gives a color that the rules exclude. -/
def KeepsExclusions (w : Campaign ℚ) : Prop :=
  ∀ r result after, 0 ≤ r → r < 1 → w.spin r = (.ok result, after) → ¬ w.Excludes result.color

theorem sample_not_excluded {w : Campaign ℚ} (hs : w.settings.Sound)
    (h : w.rareIsRequired = true ∨ ∃ c, ¬ w.Excludes c ∧ 0 < w.boosted.get c)
    {r : ℚ} (hr : r < 1) : ¬ w.Excludes (Wheel.sample w.plan.probabilities r) := by
  cases hreq : w.rareIsRequired with
  | true =>
      rw [probabilities_of_required hreq, Wheel.sample_single .yellow hr.le]
      exact not_excludes_of_required hreq
  | false =>
      have hsome : ∃ c, 0 < w.shaped.get c :=
        (exists_shaped_pos_iff hs).mpr (h.resolve_left (by simp [hreq]))
      rw [probabilities_of_not_required hreq]
      intro hex
      have hgreen : Wheel.sample (Wheel.project w.shaped w.settings.bounds true) r ≠ .green := by
        intro heq
        rw [heq] at hex
        exact not_excludes_of_neverRepeats_eq_false w rfl hex
      exact Wheel.sample_project_ne w.settings.bounds hgreen (get_shaped_of_excludes hs hex).le
        hsome r rfl

/-- Where no color that is left has weight, every color is equally likely. -/
theorem exists_sample_excluded {w : Campaign ℚ} (hs : w.settings.Sound)
    (hreq : w.rareIsRequired = false) (h : ¬ ∃ c, ¬ w.Excludes c ∧ 0 < w.boosted.get c) :
    ∃ r : ℚ, 0 ≤ r ∧ r < 1 ∧ w.Excludes (Wheel.sample w.plan.probabilities r) := by
  have hzero : ∀ c, w.shaped.get c ≤ 0 := by
    intro c
    by_contra hc
    exact h ((exists_shaped_pos_iff hs).mp ⟨c, not_le.mp hc⟩)
  obtain ⟨c, hbase⟩ := hs.weights.some_pos
  have hex : w.Excludes c := by
    by_contra hc
    exact h ⟨c, hc, (baseWeights_pos_iff.mpr hbase).trans_le (baseWeights_le_boosted hs hc)⟩
  obtain ⟨r, hr₀, hr₁, hsample⟩ := Wheel.exists_sample_uniform c
  refine ⟨r, hr₀, hr₁, ?_⟩
  rw [probabilities_of_not_required hreq, Wheel.project_eq_uniform _ hzero, hsample]
  exact hex

theorem keepsExclusions_iff {w : Campaign ℚ} (hs : w.settings.Sound) :
    w.KeepsExclusions ↔ w.isFinished = true ∨ w.rareIsRequired = true ∨
      ∃ c, ¬ w.Excludes c ∧ 0 < w.boosted.get c := by
  constructor
  · intro hkeeps
    by_contra hnot
    obtain ⟨hrun, hreq, hnone⟩ : w.isFinished = false ∧ w.rareIsRequired = false ∧
        ¬ ∃ c, ¬ w.Excludes c ∧ 0 < w.boosted.get c := by
      simpa only [not_or, Bool.not_eq_true] using hnot
    obtain ⟨r, hr₀, hr₁, hex⟩ := exists_sample_excluded hs hreq hnone
    exact hkeeps r _ _ hr₀ hr₁ (spin_eq_ok_iff.mpr ⟨hrun, rfl, rfl⟩) hex
  · rintro h r result after - hr₁ hspin
    obtain ⟨hrun, -, rfl⟩ := spin_eq_ok_iff.mp hspin
    exact sample_not_excluded hs (h.resolve_left (by simp [hrun])) hr₁

/-- A campaign of fifteen rounds in which yellow came three times and then blue. -/
def threeYellowsThenBlue (s : CampaignSettings ℚ) : Campaign ℚ :=
  ((((ofSettings { s with totalRounds := 15 }).record .yellow).record .yellow).record
    .yellow).record .blue

theorem reachable_threeYellowsThenBlue {s : CampaignSettings ℚ} (hs : s.check = .ok ()) :
    Reachable s (threeYellowsThenBlue s) := by
  have hcreate : Reachable s (ofSettings s) := .create (create_eq_ok_iff.mpr ⟨hs, rfl⟩)
  have hreset : Reachable s (ofSettings { s with totalRounds := 15 }) := hcreate.reset 15
  exact (((hreset.record rfl .yellow).record rfl .yellow).record rfl .yellow).record rfl .blue

theorem not_keepsExclusions_threeYellowsThenBlue {s : CampaignSettings ℚ} (hs : s.check = .ok ())
    (hgreen : ¬ 0 < s.base.filled.get .green) (hred : ¬ 0 < s.base.filled.get .red) :
    ¬ (threeYellowsThenBlue s).KeepsExclusions := by
  have hmet : LessonDeck.rareTarget 15 = 3 := by decide
  have hyellow : (threeYellowsThenBlue s).Excludes .yellow := .inr ⟨rfl, hmet.le⟩
  have hblue : (threeYellowsThenBlue s).Excludes .blue := .inl ⟨rfl, rfl⟩
  rw [keepsExclusions_iff (reachable_threeYellowsThenBlue hs).sound]
  rintro (hfinished | hreq | ⟨c, hc, hpos⟩)
  · exact Bool.false_ne_true hfinished
  · exact not_excludes_of_required hreq hyellow
  · cases c with
    | green =>
        rw [get_boosted_of_ne _ (by decide), baseWeights_pos_iff] at hpos
        exact hgreen hpos
    | red =>
        rw [get_boosted_of_ne _ (by decide), baseWeights_pos_iff] at hpos
        exact hred hpos
    | blue => exact hc hblue
    | yellow => exact hc hyellow

/-- A color with weight that no rule excludes keeps every draw to the exclusions. -/
theorem keepsExclusions_of_base_pos {s : CampaignSettings ℚ} {w : Campaign ℚ}
    (hw : Reachable s w)
    (hbase : 0 < s.base.filled.get .green ∨ 0 < s.base.filled.get .red) : w.KeepsExclusions := by
  have hs := hw.sound
  have hsettings : w.settings.base = s.base := by rw [hw.inStep.settings]
  have hsome : ∀ c, neverRepeats c = false → 0 < s.base.filled.get c →
      ∃ d, ¬ w.Excludes d ∧ 0 < w.boosted.get d := by
    intro c hc hpos
    have hfree := w.not_excludes_of_neverRepeats_eq_false hc
    rw [← hsettings, ← baseWeights_pos_iff] at hpos
    exact ⟨c, hfree, hpos.trans_le (baseWeights_le_boosted hs hfree)⟩
  rw [keepsExclusions_iff hs]
  rcases hbase with hgreen | hred
  · exact .inr (.inr (hsome .green rfl hgreen))
  · exact .inr (.inr (hsome .red rfl hred))

/-- No spin in any state gives yellow after yellow, blue after blue, or yellow once the target is
met, exactly if green or red has weight.  In a single state that comes down to weight on some color
that is not excluded, unless there is no draw or yellow must come. -/
theorem exclusions_hold_iff {s : CampaignSettings ℚ} (hs : s.check = .ok ()) :
    ((∀ w, Reachable s w → w.KeepsExclusions) ↔
      0 < s.base.filled.get .green ∨ 0 < s.base.filled.get .red) ∧
    ∀ w, Reachable s w → (w.KeepsExclusions ↔ w.isFinished = true ∨ w.rareIsRequired = true ∨
      ∃ c, ¬ w.Excludes c ∧ 0 < w.boosted.get c) := by
  refine ⟨⟨fun hall ↦ ?_, fun hbase w hw ↦ keepsExclusions_of_base_pos hw hbase⟩,
    fun w hw ↦ keepsExclusions_iff hw.sound⟩
  by_contra hnone
  obtain ⟨hgreen, hred⟩ := not_or.mp hnone
  exact not_keepsExclusions_threeYellowsThenBlue hs hgreen hred
    (hall _ (reachable_threeYellowsThenBlue hs))

theorem exclusions_hold_standard :
    CampaignSettings.exactStandard.check = .ok () ∧
      ∀ w, Reachable CampaignSettings.exactStandard w → w.KeepsExclusions := by
  have hs : CampaignSettings.exactStandard.check = .ok () := by decide +kernel
  exact ⟨hs, (exclusions_hold_iff hs).1.mpr (.inl (by decide +kernel))⟩

/-- With weight on yellow alone, yellow comes twice in a row. -/
theorem yellow_repeats_loneYellow :
    CampaignSettings.loneYellow.check = .ok () ∧
      ∃ w, Reachable CampaignSettings.loneYellow w ∧ w.history = [.yellow] ∧
        ∃ result after, w.spin (15 / 16) = (.ok result, after) ∧ result.color = .yellow := by
  have hs : CampaignSettings.loneYellow.check = .ok () := by decide +kernel
  have hcreate : Reachable CampaignSettings.loneYellow (ofSettings .loneYellow) :=
    .create (create_eq_ok_iff.mpr ⟨hs, rfl⟩)
  refine ⟨hs, _, hcreate.record (by decide +kernel) .yellow, rfl, _, _,
    spin_eq_ok_iff.mpr ⟨by decide +kernel, rfl, rfl⟩, ?_⟩
  decide +kernel

end Campaign

end LessonDeck
