import LessonDeck.Proofs.Double.Arith
/-!
# Doubles between bounds

What a comparison of doubles says about the bounds between which they lie, and how bounds pass
through differences and sums.  Bounds that are whole numbers of thirty-seconds add up exactly.
-/

namespace LessonDeck.Double

/-! ## Comparison with bounds -/

theorem none_or_atLeast {x y : Float} {c : ℝ} (h : ¬ x < y) (hy : AtLeast c y) :
    value x = none ∨ AtLeast c x := by
  obtain ⟨b, hb, hle⟩ := hy
  cases ha : value x with
  | none => exact .inl rfl
  | some a =>
      have hba : b ≤ a := le_of_not_gt fun hlt ↦ h (lt_iff.mpr ⟨a, b, ha, hb, hlt⟩)
      exact .inr ⟨a, ha, hle.trans hba⟩

theorem none_or_atMost {x y : Float} {c : ℝ} (h : ¬ x < y) (hx : AtMost c x) :
    value y = none ∨ AtMost c y := by
  obtain ⟨a, ha, hle⟩ := hx
  cases hb : value y with
  | none => exact .inl rfl
  | some b =>
      have hba : b ≤ a := le_of_not_gt fun hlt ↦ h (lt_iff.mpr ⟨a, b, ha, hb, hlt⟩)
      exact .inr ⟨b, hb, hba.trans hle⟩

theorem AtLeast.of_le {x y : Float} {c : ℝ} (hx : AtLeast c x) (h : x ≤ y) : AtLeast c y := by
  obtain ⟨v, hv, hle⟩ := hx
  obtain ⟨a, b, ha, hb, hab⟩ := le_iff.mp h
  obtain rfl := Option.some.inj (hv.symm.trans ha)
  exact ⟨b, hb, hle.trans hab⟩

theorem AtMost.of_le {x y : Float} {c : ℝ} (hy : AtMost c y) (h : x ≤ y) : AtMost c x := by
  obtain ⟨v, hv, hle⟩ := hy
  obtain ⟨a, b, ha, hb, hab⟩ := le_iff.mp h
  obtain rfl := Option.some.inj (hv.symm.trans hb)
  exact ⟨a, ha, hab.trans hle⟩

theorem le_of_atLeast {x : Float} {c p : ℝ} (h : AtLeast c x) (hx : value x = some (p : EReal)) :
    c ≤ p := by
  obtain ⟨v, hv, hle⟩ := h
  obtain rfl := Option.some.inj (hv.symm.trans hx)
  exact EReal.coe_le_coe_iff.mp hle

theorem le_of_lt {x y : Float} (h : x < y) : x ≤ y := by
  obtain ⟨a, b, ha, hb, hab⟩ := lt_iff.mp h
  exact le_iff.mpr ⟨a, b, ha, hb, hab.le⟩

theorem tiny_pos : 0 < tiny :=
  two_zpow_pos _

theorem representable_tiny : Representable tiny :=
  ⟨1, -1074, by norm_num, le_rfl, by norm_num, by rw [Int.cast_one, one_mul, tiny]⟩

theorem Representable.exists_units {c : ℝ} (h : Representable c) : ∃ n : ℤ, c = n * tiny := by
  obtain ⟨a, e, -, hmin, -, rfl⟩ := h
  refine ⟨a * 2 ^ (e - -1074).toNat, ?_⟩
  rw [tiny, two_zpow_add_toNat hmin]
  push_cast
  ring

/-- Two reals that doubles stand for are at least the smallest double apart. -/
theorem Representable.add_tiny_le {c d : ℝ} (hc : Representable c) (hd : Representable d)
    (h : c < d) : c + tiny ≤ d := by
  obtain ⟨m, rfl⟩ := hc.exists_units
  obtain ⟨n, rfl⟩ := hd.exists_units
  have hmn : (m : ℝ) < n := lt_of_mul_lt_mul_right h tiny_pos.le
  have hmn' : m < n := by exact_mod_cast hmn
  have hle : (m : ℝ) + 1 ≤ n := by exact_mod_cast Int.add_one_le_iff.mpr hmn'
  have hmul := mul_le_mul_of_nonneg_right hle tiny_pos.le
  linarith

/-- A difference is positive, however close the two doubles are. -/
theorem atLeast_sub_of_lt {x y : Float} (h : y < x) : AtLeast tiny (x - y) := by
  obtain ⟨a, b, ha, hb, hab⟩ := lt_iff.mp h
  have hbounds : ∃ p q : ℝ, q + tiny ≤ p ∧ AtLeast p x ∧ AtMost q y := by
    induction a with
    | top => exact absurd hab not_top_lt
    | bot =>
        induction b with
        | bot => exact absurd hab (lt_irrefl _)
        | top => exact ⟨tiny, 0, (zero_add tiny).le, ⟨⊤, hb, le_top⟩, ⟨⊥, ha, bot_le⟩⟩
        | coe p => exact ⟨p, p - tiny, (sub_add_cancel p tiny).le, atLeast_of_value hb,
            ⟨⊥, ha, bot_le⟩⟩
    | coe q =>
        induction b with
        | bot => exact absurd hab not_lt_bot
        | top => exact ⟨q + tiny, q, le_rfl, ⟨⊤, hb, le_top⟩, atMost_of_value ha⟩
        | coe p =>
            have hlt : q < p := EReal.coe_lt_coe_iff.mp hab
            exact ⟨p, q, (representable_of_value ha).add_tiny_le (representable_of_value hb) hlt,
              atLeast_of_value hb, atMost_of_value ha⟩
  obtain ⟨p, q, hpq, hp, hq⟩ := hbounds
  exact hp.sub hq representable_tiny (le_sub_iff_add_le'.mpr hpq)

theorem atLeast_tiny_of_lt {x y : Float} (hx : AtLeast 0 x) (h : x < y) : AtLeast tiny y := by
  obtain ⟨v, hv, hle⟩ := hx
  obtain ⟨a, b, ha, hb, hab⟩ := lt_iff.mp h
  obtain rfl := Option.some.inj (hv.symm.trans ha)
  have hpos : ((0 : ℝ) : EReal) < b := hle.trans_lt hab
  induction b with
  | bot => exact absurd hpos not_lt_bot
  | top => exact ⟨⊤, hb, le_top⟩
  | coe p =>
      have hp : 0 < p := EReal.coe_lt_coe_iff.mp hpos
      have htiny := representable_zero.add_tiny_le (representable_of_value hb) hp
      rw [zero_add] at htiny
      exact (atLeast_of_value hb).mono htiny

theorem lt_of_atLeast_tiny {x y : Float} (hx : AtMost 0 x) (h : AtLeast tiny y) : x < y := by
  obtain ⟨a, ha, hle⟩ := hx
  obtain ⟨b, hb, hge⟩ := h
  have htiny : ((0 : ℝ) : EReal) < (tiny : EReal) := EReal.coe_lt_coe_iff.mpr tiny_pos
  exact lt_iff.mpr ⟨a, b, ha, hb, (hle.trans_lt htiny).trans_le hge⟩

/-! ## Whole bounds -/

/-- Between two whole numbers of thirty-seconds. -/
structure Within (a b : ℤ) (x : Float) : Prop where
  atLeast : AtLeast (a / 32) x
  atMost : AtMost (b / 32) x

theorem representable_thirtySeconds {n : ℤ} (h : |n| < 2 ^ 53) : Representable (n / 32) := by
  refine ⟨n, -5, h, by norm_num, by norm_num, ?_⟩
  rw [zpow_neg]
  norm_num
  ring

theorem Within.mono {a b c d : ℤ} {x : Float} (h : Within a b x) (hc : c ≤ a) (hd : b ≤ d) :
    Within c d x := by
  have hc' : (c : ℝ) ≤ a := by exact_mod_cast hc
  have hd' : (b : ℝ) ≤ d := by exact_mod_cast hd
  exact ⟨h.atLeast.mono (by linarith), h.atMost.mono (by linarith)⟩

theorem Within.exists_value {a b : ℤ} {x : Float} (h : Within a b x) :
    ∃ p : ℝ, value x = some (p : EReal) ∧ a / 32 ≤ p ∧ p ≤ b / 32 :=
  Double.exists_value h.atLeast h.atMost

theorem Within.add {a b c d : ℤ} {x y : Float} (hx : Within a b x) (hy : Within c d y)
    (hlow : |a + c| < 2 ^ 53) (hhigh : |b + d| < 2 ^ 53) : Within (a + c) (b + d) (x + y) := by
  obtain ⟨p, hp, hap, hpb⟩ := hx.exists_value
  obtain ⟨q, hq, hcq, hqd⟩ := hy.exists_value
  have hfaithful := faithful_add hp hq
  constructor
  · refine hfaithful.atLeast _ (representable_thirtySeconds hlow) ?_
    push_cast
    linarith
  · refine hfaithful.atMost _ (representable_thirtySeconds hhigh) ?_
    push_cast
    linarith

theorem Within.sub {a b c d : ℤ} {x y : Float} (hx : Within a b x) (hy : Within c d y)
    (hlow : |a - d| < 2 ^ 53) (hhigh : |b - c| < 2 ^ 53) : Within (a - d) (b - c) (x - y) := by
  obtain ⟨p, hp, hap, hpb⟩ := hx.exists_value
  obtain ⟨q, hq, hcq, hqd⟩ := hy.exists_value
  have hfaithful := faithful_sub hp hq
  constructor
  · refine hfaithful.atLeast _ (representable_thirtySeconds hlow) ?_
    push_cast
    linarith
  · refine hfaithful.atMost _ (representable_thirtySeconds hhigh) ?_
    push_cast
    linarith

end LessonDeck.Double
