import LessonDeck.Proofs.Wheel.Projection
import LessonDeck.Wheel.Adaptive
/-!
# The adaptive wheel corrects itself

A color that comes up is counted once more, while no other color is counted more often than before:
whether or not the history forgets another spin, the average grows by no more than the count of the
color that came up.  So that color loses weight, no other color does, and since the projection is
fair the color becomes no likelier.
-/

namespace LessonDeck

open Scalar

/-- The standard settings of an adaptive wheel in exact decimals. -/
def AdaptiveSettings.exactStandard : AdaptiveSettings ℚ where
  base := ByColor.const (some (1 / 4))
  alpha := 3 / 5
  bounds := ⟨3 / 25, 1 / 2⟩
  maxHistory := 10
  seed := none

namespace AdaptiveWheel

section States

variable {α : Type} [Scalar α]

/-- The states that an adaptive wheel with these settings can come to. -/
inductive Reachable (s : AdaptiveSettings α) : AdaptiveWheel α → Prop where
  | create {w : AdaptiveWheel α} (h : create s = .ok w) : Reachable s w
  | spin {w : AdaptiveWheel α} {r : α} (hw : Reachable s w) (hr : 0 ≤ r ∧ r < 1) :
      Reachable s (w.spin r).2
  | force {w : AdaptiveWheel α} (hw : Reachable s w) (c : Color) : Reachable s (w.force c).2
  | reset {w : AdaptiveWheel α} (hw : Reachable s w) : Reachable s w.reset
  | updateBase {w after : AdaptiveWheel α} {base : ByColor (Option α)} (hw : Reachable s w)
      (h : w.updateBase base = (.ok (), after)) : Reachable s after

theorem create_eq_ok_iff {s : AdaptiveSettings α} {w : AdaptiveWheel α} :
    create s = .ok w ↔ s.check = .ok () ∧ w = ofSettings s := by
  rw [create]
  cases s.check with
  | error e => exact iff_of_false nofun fun h ↦ nomatch h.1
  | ok u => exact ⟨fun h ↦ ⟨rfl, (Except.ok.inj h).symm⟩, fun h ↦ h.2 ▸ rfl⟩

theorem updateBase_eq_ok_iff {w after : AdaptiveWheel α} {base : ByColor (Option α)} :
    w.updateBase base = (.ok (), after) ↔ Wheel.checkWeights base = .ok () ∧
      after = { w with settings := { w.settings with base := base } } := by
  rw [updateBase]
  cases Wheel.checkWeights base with
  | error e => exact iff_of_false (fun h ↦ nomatch (Prod.mk.inj h).1) fun h ↦ nomatch h.1
  | ok u => exact ⟨fun h ↦ ⟨rfl, (Prod.mk.inj h).2.symm⟩, fun h ↦ h.2 ▸ rfl⟩

end States

/-! ## What the history forgets -/

section History

variable {α : Type} (w : AdaptiveWheel α) (c : Color)

/-- What is forgotten when a color is recorded, and what is remembered, are the old history and the
color. -/
theorem exists_forgotten_append :
    ∃ forgotten, forgotten ++ (w.record c).history = w.history ++ [c] :=
  ⟨_, List.take_append_drop _ _⟩

theorem length_le_length_record {w : AdaptiveWheel α}
    (h : w.history.length ≤ w.settings.maxHistory) :
    w.history.length ≤ (w.record c).history.length := by
  have hlength : (w.record c).history.length =
      (w.history ++ [c]).length - ((w.history ++ [c]).length - w.settings.maxHistory) :=
    List.length_drop
  rw [hlength, List.length_append, List.length_singleton]
  omega

theorem length_record_le : (w.record c).history.length ≤ w.settings.maxHistory := by
  have hlength : (w.record c).history.length =
      (w.history ++ [c]).length - ((w.history ++ [c]).length - w.settings.maxHistory) :=
    List.length_drop
  omega

theorem count_record_le {d : Color} (hd : d ≠ c) : (w.record c).count d ≤ w.count d := by
  obtain ⟨forgotten, happend⟩ := w.exists_forgotten_append c
  have hcount := congrArg (List.count d) happend
  rw [List.count_append, List.count_append, List.count_singleton, beq_false_of_ne hd.symm] at hcount
  rw [count, count]
  simp only [Bool.false_eq_true, if_false] at hcount
  omega

/-- The history grows by no more than the count of the color that is recorded. -/
theorem length_record_add_count_le :
    (w.record c).history.length + w.count c ≤ w.history.length + (w.record c).count c := by
  obtain ⟨forgotten, happend⟩ := w.exists_forgotten_append c
  have hcount := congrArg (List.count c) happend
  have hlength := congrArg List.length happend
  have hle : forgotten.count c ≤ forgotten.length := List.count_le_length
  rw [List.count_append, List.count_append, List.count_singleton_self] at hcount
  rw [List.length_append, List.length_append, List.length_singleton] at hlength
  rw [count, count]
  omega

end History

/-- Base weights and bounds that are accepted, and a history that is not too long; the strength of
the correction is that of the settings. -/
structure Steady (s : AdaptiveSettings ℚ) (w : AdaptiveWheel ℚ) : Prop where
  bounds : Wheel.SoundBounds w.settings.bounds
  weights : Wheel.SoundWeights w.settings.base
  alpha : w.settings.alpha = s.alpha
  length_le : w.history.length ≤ w.settings.maxHistory

theorem Steady.record {s : AdaptiveSettings ℚ} {w : AdaptiveWheel ℚ} (h : Steady s w) (c : Color) :
    Steady s (w.record c) :=
  ⟨h.bounds, h.weights, h.alpha, w.length_record_le c⟩

theorem Reachable.steady {s : AdaptiveSettings ℚ} {w : AdaptiveWheel ℚ} (hw : Reachable s w) :
    Steady s w := by
  induction hw with
  | create h =>
      obtain ⟨hcheck, rfl⟩ := create_eq_ok_iff.mp h
      obtain ⟨hbounds, hweights⟩ := bind_eq_ok_iff.mp hcheck
      exact ⟨Wheel.checkBounds_eq_ok_iff.mp hbounds, Wheel.checkWeights_eq_ok_iff.mp hweights, rfl,
        Nat.zero_le _⟩
  | spin _ _ ih => exact ih.record _
  | force _ c ih => exact ih.record c
  | reset _ ih => exact ⟨ih.bounds, ih.weights, ih.alpha, Nat.zero_le _⟩
  | updateBase _ h ih =>
      obtain ⟨hweights, rfl⟩ := updateBase_eq_ok_iff.mp h
      exact ⟨ih.bounds, Wheel.checkWeights_eq_ok_iff.mp hweights, ih.alpha, ih.length_le⟩

/-! ## Weights before and after -/

/-- How far the count of a color stays behind the average. -/
def behind (w : AdaptiveWheel ℚ) (c : Color) : ℚ :=
  w.history.length / 4 - w.count c

theorem weightOf_eq (w : AdaptiveWheel ℚ) (c : Color) :
    w.weightOf c = w.settings.base.filled.get c * (1 + w.settings.alpha * w.behind c) :=
  rfl

theorem behind_record_le {w : AdaptiveWheel ℚ} (h : w.history.length ≤ w.settings.maxHistory)
    (c : Color) : (w.record c).behind c ≤ w.behind c := by
  have hgrowth : ((w.record c).history.length : ℚ) + w.count c ≤
      w.history.length + (w.record c).count c := by
    exact_mod_cast w.length_record_add_count_le c
  have hlength : (w.history.length : ℚ) ≤ (w.record c).history.length := by
    exact_mod_cast length_le_length_record c h
  rw [behind, behind]
  linarith

theorem behind_le_record {w : AdaptiveWheel ℚ} (h : w.history.length ≤ w.settings.maxHistory)
    {c d : Color} (hd : d ≠ c) : w.behind d ≤ (w.record c).behind d := by
  have hcount : ((w.record c).count d : ℚ) ≤ w.count d := by
    exact_mod_cast w.count_record_le c hd
  have hlength : (w.history.length : ℚ) ≤ (w.record c).history.length := by
    exact_mod_cast length_le_length_record c h
  rw [behind, behind]
  linarith

theorem weightOf_le_weightOf {s : AdaptiveSettings ℚ} {w v : AdaptiveWheel ℚ} (h : Steady s w)
    (halpha : 0 ≤ s.alpha) (hsettings : v.settings = w.settings) {c : Color}
    (hbehind : v.behind c ≤ w.behind c) : v.weightOf c ≤ w.weightOf c := by
  have hbase := h.weights.nonneg c
  rw [weightOf_eq, weightOf_eq, hsettings, h.alpha]
  refine mul_le_mul_of_nonneg_left ?_ hbase
  exact add_le_add_right (mul_le_mul_of_nonneg_left hbehind halpha) 1

theorem settings_record (w : AdaptiveWheel ℚ) (c : Color) : (w.record c).settings = w.settings :=
  rfl

theorem get_probabilities_record_le {s : AdaptiveSettings ℚ} {w : AdaptiveWheel ℚ}
    (h : Steady s w) (halpha : 0 ≤ s.alpha) (c : Color) :
    (w.record c).probabilities.get c ≤ w.probabilities.get c + Wheel.tolerance := by
  have hweight : ∀ (w : AdaptiveWheel ℚ) d,
      Wheel.weight (ByColor.tabulate w.weightOf) d = positivePart (w.weightOf d) := by
    intro w d
    rw [Wheel.weight, ByColor.get_tabulate]
  rw [probabilities, probabilities, settings_record]
  refine Wheel.get_project_le_of_lighter h.bounds.low_nonneg rfl (Wheel.mem_active_false _ c) ?_
    fun d hd ↦ ?_
  · rw [hweight, hweight]
    exact positivePart_le_positivePart (weightOf_le_weightOf h halpha (settings_record w c)
      (behind_record_le h.length_le c))
  · rw [hweight, hweight]
    exact positivePart_le_positivePart (weightOf_le_weightOf (h.record c) halpha
      (settings_record w c).symm (behind_le_record h.length_le hd))

/-- A color that comes up, by hand or by a draw, is no more likely afterwards. -/
theorem recorded_color_no_likelier {s : AdaptiveSettings ℚ} {w : AdaptiveWheel ℚ}
    (hw : Reachable s w) (halpha : 0 ≤ s.alpha) :
    (∀ c, (w.force c).2.probabilities.get c ≤ w.probabilities.get c + Wheel.tolerance) ∧
    ∀ r, (w.spin r).2.probabilities.get (w.spin r).1.color ≤
      w.probabilities.get (w.spin r).1.color + Wheel.tolerance :=
  ⟨get_probabilities_record_le hw.steady halpha,
    fun _ ↦ get_probabilities_record_le hw.steady halpha _⟩

/-- A wheel with room for two spins forgets green when red comes up again. -/
theorem recorded_color_no_likelier_full :
    ∃ w, Reachable { AdaptiveSettings.exactStandard with maxHistory := 2 } w ∧
      0 ≤ AdaptiveSettings.exactStandard.alpha ∧ w.history = [.green, .red] ∧
      (w.force .red).2.history = [.red, .red] ∧
      (w.force .red).2.probabilities.get .red ≤ w.probabilities.get .red + Wheel.tolerance := by
  have hcheck : AdaptiveSettings.check { AdaptiveSettings.exactStandard with maxHistory := 2 } =
      .ok () := by decide +kernel
  have halpha : 0 ≤ AdaptiveSettings.exactStandard.alpha := by decide +kernel
  have hcreate := Reachable.create (create_eq_ok_iff.mpr ⟨hcheck, rfl⟩)
  have hw := (hcreate.force .green).force .red
  exact ⟨_, hw, halpha, rfl, rfl, (recorded_color_no_likelier hw halpha).1 .red⟩

end AdaptiveWheel

end LessonDeck
