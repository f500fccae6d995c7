import LessonDeck.Proofs.Exact
/-!
# What the checks of the settings accept

Each check stands beside the condition that it decides.  A color that is missing from the base
weights weighs nothing, so that the conditions speak of the weights once they are filled in.
-/

namespace LessonDeck

open Scalar

namespace Wheel

/-- Bounds in order between zero and one, with room for four colors. -/
structure SoundBounds (b : Bounds ℚ) : Prop where
  low_nonneg : 0 ≤ b.low
  low_le_high : b.low ≤ b.high
  high_le_one : b.high ≤ 1
  low_fits : b.low * 4 ≤ 1 + 1 / 1000000000000
  high_fits : 1 - 1 / 1000000000000 ≤ b.high * 4

/-- Weights of which none is negative and some is positive. -/
structure SoundWeights (weights : ByColor (Option ℚ)) : Prop where
  nonneg : ∀ c, 0 ≤ weights.filled.get c
  some_pos : ∃ c, 0 < weights.filled.get c

theorem checkBounds_eq_ok_iff {b : Bounds ℚ} : checkBounds b = .ok () ↔ SoundBounds b := by
  have hcheck : checkBounds b = .ok () ↔ 0 ≤ b.low ∧ b.low ≤ b.high ∧ b.high ≤ 1 ∧
      b.low * 4 ≤ 1 + 1 / 1000000000000 ∧ 1 - 1 / 1000000000000 ≤ b.high * 4 := by
    rw [checkBounds]
    split
    · next h => exact iff_of_true rfl ⟨h.2.2.1, h.2.2.2.1, h.2.2.2.2.1, h.2.2.2.2.2⟩
    · next h =>
      refine iff_of_false (by simp) fun hsound ↦ h ?_
      exact ⟨rfl, rfl, hsound.1, hsound.2.1, hsound.2.2.1, hsound.2.2.2⟩
  rw [hcheck]
  constructor
  · rintro ⟨h₁, h₂, h₃, h₄, h₅⟩
    exact ⟨h₁, h₂, h₃, h₄, h₅⟩
  · intro h
    exact ⟨h.low_nonneg, h.low_le_high, h.high_le_one, h.low_fits, h.high_fits⟩

theorem isWeight_iff {x : ℚ} : isWeight x = true ↔ 0 ≤ x := by
  have hfinite : isFinite x = true := rfl
  rw [isWeight, hfinite, Bool.true_and, Bool.not_eq_true', decide_eq_false_iff_not, not_lt]

/-- The weights of a table that are given, with their colors. -/
def given (weights : ByColor (Option ℚ)) : List (Color × ℚ) :=
  weights.toList.filterMap fun (c, entry) => entry.map fun x => (c, x)

theorem mem_given {weights : ByColor (Option ℚ)} {c : Color} {x : ℚ} :
    (c, x) ∈ given weights ↔ weights.get c = some x := by
  rw [given, List.mem_filterMap]
  constructor
  · rintro ⟨⟨d, entry⟩, hmem, hentry⟩
    obtain ⟨e, -, he⟩ := List.mem_map.mp hmem
    obtain ⟨y, hy, hxy⟩ := Option.map_eq_some_iff.mp hentry
    simp only [Prod.mk.injEq] at he hxy
    obtain ⟨rfl, rfl⟩ := hxy
    rw [← hy, ← he.2, he.1]
  · intro h
    refine ⟨(c, some x), ?_, rfl⟩
    exact List.mem_map.mpr ⟨c, mem_all c, by rw [h]⟩

theorem forall_filled_iff {weights : ByColor (Option ℚ)} :
    (∀ c, 0 ≤ weights.filled.get c) ↔ ∀ e ∈ given weights, 0 ≤ e.2 := by
  constructor
  · rintro h ⟨c, x⟩ he
    simpa [ByColor.filled, mem_given.mp he] using h c
  · intro h c
    cases hc : weights.get c with
    | none => simp [ByColor.filled, hc]
    | some x => simpa [ByColor.filled, hc] using h (c, x) (mem_given.mpr hc)

theorem exists_filled_iff {weights : ByColor (Option ℚ)} :
    (∃ c, 0 < weights.filled.get c) ↔ ∃ e ∈ given weights, 0 < e.2 := by
  constructor
  · rintro ⟨c, h⟩
    cases hc : weights.get c with
    | none => simp [ByColor.filled, hc] at h
    | some x => exact ⟨(c, x), mem_given.mpr hc, by simpa [ByColor.filled, hc] using h⟩
  · rintro ⟨⟨c, x⟩, he, hx⟩
    exact ⟨c, by simpa [ByColor.filled, mem_given.mp he] using hx⟩

theorem checkWeights_eq_ok_iff {weights : ByColor (Option ℚ)} :
    checkWeights weights = .ok () ↔ SoundWeights weights := by
  have hsound : SoundWeights weights ↔
      (∀ e ∈ given weights, 0 ≤ e.2) ∧ ∃ e ∈ given weights, 0 < e.2 := by
    rw [← forall_filled_iff, ← exists_filled_iff]
    exact ⟨fun h ↦ ⟨h.nonneg, h.some_pos⟩, fun h ↦ ⟨h.1, h.2⟩⟩
  rw [hsound, checkWeights, ← given]
  split
  · next c x hfind =>
    refine iff_of_false (by simp) fun h ↦ ?_
    have hbad := List.find?_some hfind
    rw [Bool.not_eq_true', Bool.eq_false_iff, ne_eq, isWeight_iff] at hbad
    exact hbad (h.1 (c, x) (List.mem_of_find?_eq_some hfind))
  · next hfind =>
    have hnonneg : ∀ e ∈ given weights, 0 ≤ e.2 := by
      intro e he
      have hweight := List.find?_eq_none.mp hfind e he
      rwa [Bool.not_eq_true, Bool.not_eq_false', isWeight_iff] at hweight
    split
    · next hall =>
      refine iff_of_false (by simp) fun h ↦ ?_
      obtain ⟨e, he, hpos⟩ := h.2
      have hzero := List.all_eq_true.mp hall e he
      exact (of_decide_eq_false ((Bool.not_eq_true' _).mp hzero)) hpos
    · next hall =>
      refine iff_of_true rfl ⟨hnonneg, ?_⟩
      by_contra hnone
      refine hall (List.all_eq_true.mpr fun e he ↦ ?_)
      exact (Bool.not_eq_true' _).mpr (decide_eq_false fun hpos ↦ hnone ⟨e, he, hpos⟩)

theorem checkShare_eq_ok_iff {x : ℚ} : checkShare x = .ok () ↔ 0 ≤ x ∧ x ≤ 1 := by
  rw [checkShare]
  split
  · next h => exact iff_of_true rfl h
  · next h => exact iff_of_false (by simp) h

end Wheel

/-- Settings that a campaign can be played with. -/
structure CampaignSettings.Sound (s : CampaignSettings ℚ) : Prop where
  bounds : Wheel.SoundBounds s.bounds
  weights : Wheel.SoundWeights s.base
  shift : 0 ≤ s.balanceShift ∧ s.balanceShift ≤ 1
  penalty : 0 ≤ s.repeatPenalty ∧ s.repeatPenalty ≤ 1
  boost : 0 ≤ s.rareBoost

/-- The standard settings in exact decimals. -/
def CampaignSettings.exactStandard : CampaignSettings ℚ where
  totalRounds := 15
  base := ⟨some (9 / 20), some (3 / 10), some (3 / 20), some (1 / 10)⟩
  bounds := ⟨1 / 20, 3 / 5⟩
  balanceWindow := 6
  balanceShift := 1 / 4
  repeatPenalty := 3 / 10
  rareBoost := 3 / 20
  seed := none

/-- The standard settings, but with weight on yellow alone. -/
def CampaignSettings.loneYellow : CampaignSettings ℚ :=
  { CampaignSettings.exactStandard with base := ⟨none, none, none, some 1⟩ }

theorem bind_eq_ok_iff {ε : Type} {x y : Except ε Unit} :
    (x >>= fun _ ↦ y) = .ok () ↔ x = .ok () ∧ y = .ok () := by
  cases x with
  | error e => exact iff_of_false nofun fun h ↦ nomatch h.1
  | ok u => exact ⟨fun h ↦ ⟨rfl, h⟩, fun h ↦ h.2⟩

theorem CampaignSettings.check_eq_ok_iff {s : CampaignSettings ℚ} :
    s.check = .ok () ↔ s.Sound := by
  have hboost : (if Wheel.isWeight s.rareBoost then Except.ok ()
      else .error (WheelError.invalidProbability .yellow s.rareBoost)) = .ok () ↔
        0 ≤ s.rareBoost := by
    rw [← Wheel.isWeight_iff]
    split
    · next h => exact iff_of_true rfl h
    · next h => exact iff_of_false (by simp) h
  rw [check, bind_eq_ok_iff, bind_eq_ok_iff, bind_eq_ok_iff, bind_eq_ok_iff,
    Wheel.checkBounds_eq_ok_iff, Wheel.checkWeights_eq_ok_iff, Wheel.checkShare_eq_ok_iff,
    Wheel.checkShare_eq_ok_iff, hboost]
  constructor
  · rintro ⟨h₁, h₂, h₃, h₄, h₅⟩
    exact ⟨h₁, h₂, h₃, h₄, h₅⟩
  · intro h
    exact ⟨h.bounds, h.weights, h.shift, h.penalty, h.boost⟩

end LessonDeck
