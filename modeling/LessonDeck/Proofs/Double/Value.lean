import LessonDeck.Proofs.Double.Store
/-!
# What doubles stand for

A double stands for a real or for one of the two infinities, unless it is not a number.  Doubles
compare as what they stand for; what is not a number compares with nothing.
-/

open Float.Model (Format UnpackedFloat totalExponent)
open Float.Model.UnpackedFloat

namespace LessonDeck.Double

theorem signed_eq (s : Sign) (n : ℕ) (e : ℤ) :
    signed s (n * 2 ^ e) = (s.apply n : ℤ) * 2 ^ e := by
  cases s <;> simp [signed, Sign.apply]

noncomputable def value (x : Float) : Option EReal :=
  valueOf x.toModel.unpack

theorem storable_toModel (x : Float) : Storable x.toModel.unpack :=
  storable_unpack _

/-- A double that stands for something stands for a real, or it is an infinity. -/
theorem real_or_infinity {x : Float} {v : EReal} (h : value x = some v) :
    (∃ p : ℝ, v = p) ∨ ∃ s, x.toModel.unpack = .infinity s ∧ v = beyond s := by
  rw [value] at h
  cases hu : x.toModel.unpack with
  | notANumber => simp [hu, valueOf] at h
  | infinity s =>
      rw [hu] at h
      exact .inr ⟨s, rfl, (Option.some.inj h).symm⟩
  | zero s =>
      rw [hu] at h
      exact .inl ⟨0, (Option.some.inj h).symm⟩
  | finite s m e hm =>
      rw [hu] at h
      exact .inl ⟨_, (Option.some.inj h).symm⟩

/-- A number that stands for a real is a zero or has a mantissa. -/
theorem eq_of_valueOf {u : UnpackedFloat} {p : ℝ} (h : valueOf u = some (p : EReal)) :
    (∃ s, u = .zero s ∧ p = 0) ∨
      ∃ s mantissa e hpos, u = .finite s mantissa e hpos ∧ p = signed s (mantissa * 2 ^ e) := by
  cases u with
  | notANumber => exact nomatch h
  | infinity s =>
      cases s
      · exact absurd (Option.some.inj h).symm (EReal.coe_ne_bot p)
      · exact absurd (Option.some.inj h).symm (EReal.coe_ne_top p)
  | zero s => exact .inl ⟨s, rfl, (EReal.coe_injective (Option.some.inj h)).symm⟩
  | finite s mantissa e hpos =>
      exact .inr ⟨s, mantissa, e, hpos, rfl, (EReal.coe_injective (Option.some.inj h)).symm⟩

theorem representable_of_value {x : Float} {p : ℝ} (h : value x = some (p : EReal)) :
    Representable p := by
  have hs := storable_toModel x
  obtain ⟨s, -, rfl⟩ | ⟨s, mantissa, e, hpos, hu, rfl⟩ := eq_of_valueOf h
  · exact ⟨0, 0, by norm_num, by norm_num, by norm_num, by norm_num⟩
  · rw [hu] at hs
    obtain ⟨hlt, -, hmin, hmax⟩ := hs
    refine ⟨s.apply mantissa, e, ?_, hmin, hmax, signed_eq s mantissa e⟩
    have hcast : (mantissa : ℤ) < 2 ^ 53 := by exact_mod_cast hlt
    cases s <;> simpa [Sign.apply] using hcast

/-! ## Comparison -/

/-- Of two mantissas in stored form the one with the greater exponent is the greater number. -/
theorem value_lt_of_lt {m n : ℕ} {e f : ℤ} (hm : m < 2 ^ 53) (hn : Leads n f) (he : -1074 ≤ e)
    (h : e < f) : (m : ℝ) * 2 ^ e < n * 2 ^ f := by
  have hbig : (2 : ℝ) ^ 52 ≤ n := by exact_mod_cast hn.resolve_right (by omega)
  have hm' : (m : ℝ) < 2 ^ 53 := by exact_mod_cast hm
  have hpow : (2 : ℝ) ^ (e + 1) ≤ 2 ^ f := zpow_le_zpow_right₀ one_le_two (by omega)
  calc (m : ℝ) * 2 ^ e < 2 ^ 53 * 2 ^ e := mul_lt_mul_of_pos_right hm' (two_zpow_pos e)
    _ = 2 ^ 52 * 2 ^ (e + 1) := by rw [zpow_add_one₀ two_ne_zero]; ring
    _ ≤ n * 2 ^ f := mul_le_mul hbig hpow (two_zpow_pos _).le (by positivity)

theorem compares_parts {m n : ℕ} {e f : ℤ} (hm : m < 2 ^ 53 ∧ Leads m e ∧ -1074 ≤ e)
    (hn : n < 2 ^ 53 ∧ Leads n f ∧ -1074 ≤ f) :
    ((compare e f).then (compare m n)).Compares ((m : ℝ) * 2 ^ e) (n * 2 ^ f) := by
  obtain h | rfl | h := lt_trichotomy e f
  · rw [compare_lt_iff_lt.mpr h]
    exact value_lt_of_lt hm.1 hn.2.1 hm.2.2 h
  · rw [compare_eq_iff_eq.mpr rfl]
    change (compare m n).Compares _ _
    obtain h | rfl | h := lt_trichotomy m n
    · rw [compare_lt_iff_lt.mpr h]
      exact mul_lt_mul_of_pos_right (Nat.cast_lt.mpr h) (two_zpow_pos e)
    · rw [compare_eq_iff_eq.mpr rfl]
      rfl
    · rw [compare_gt_iff_gt.mpr h]
      exact mul_lt_mul_of_pos_right (Nat.cast_lt.mpr h) (two_zpow_pos e)
  · rw [compare_gt_iff_gt.mpr h]
    exact value_lt_of_lt hn.1 hm.2.1 hn.2.2 h

theorem compares_coe {o : Ordering} {p q : ℝ} :
    o.Compares (p : EReal) (q : EReal) ↔ o.Compares p q := by
  cases o
  · exact EReal.coe_lt_coe_iff
  · exact EReal.coe_eq_coe_iff
  · exact EReal.coe_lt_coe_iff

theorem compares_neg {o : Ordering} {p q : ℝ} (h : o.Compares p q) : o.swap.Compares (-p) (-q) := by
  cases o
  · exact neg_lt_neg h
  · exact congrArg Neg.neg h
  · exact neg_lt_neg h

theorem exists_compare {u v : UnpackedFloat} (hu : Canonical u) (hv : Canonical v) {a b : EReal}
    (ha : valueOf u = some a) (hb : valueOf v = some b) :
    ∃ o, u.compare v = some o ∧ o.Compares a b := by
  have hpos : ∀ {n : ℕ} {e : ℤ}, 0 < n → (0 : ℝ) < n * 2 ^ e :=
    fun hn ↦ mul_pos (Nat.cast_pos.mpr hn) (two_zpow_pos _)
  have hneg : ∀ {n : ℕ} {e : ℤ}, 0 < n → -((n : ℝ) * 2 ^ e) < 0 :=
    fun hn ↦ neg_lt_zero.mpr (hpos hn)
  cases u with
  | notANumber => exact nomatch ha
  | infinity s =>
      obtain rfl := Option.some.inj ha
      cases v with
      | notANumber => exact nomatch hb
      | infinity t =>
          obtain rfl := Option.some.inj hb
          cases s <;> cases t
          · exact ⟨.eq, rfl, rfl⟩
          · exact ⟨.lt, rfl, bot_lt_top⟩
          · exact ⟨.gt, rfl, bot_lt_top⟩
          · exact ⟨.eq, rfl, rfl⟩
      | zero t =>
          obtain rfl := Option.some.inj hb
          cases s
          · exact ⟨.lt, rfl, EReal.bot_lt_coe _⟩
          · exact ⟨.gt, rfl, EReal.coe_lt_top _⟩
      | finite t n f hn =>
          obtain rfl := Option.some.inj hb
          cases s
          · exact ⟨.lt, rfl, EReal.bot_lt_coe _⟩
          · exact ⟨.gt, rfl, EReal.coe_lt_top _⟩
  | zero s =>
      obtain rfl := Option.some.inj ha
      cases v with
      | notANumber => exact nomatch hb
      | infinity t =>
          obtain rfl := Option.some.inj hb
          cases t
          · exact ⟨.gt, rfl, EReal.bot_lt_coe _⟩
          · exact ⟨.lt, rfl, EReal.coe_lt_top _⟩
      | zero t =>
          obtain rfl := Option.some.inj hb
          exact ⟨.eq, rfl, rfl⟩
      | finite t n f hn =>
          obtain rfl := Option.some.inj hb
          cases t
          · exact ⟨.gt, rfl, compares_coe (o := .gt).mpr (hneg hn)⟩
          · exact ⟨.lt, rfl, compares_coe (o := .lt).mpr (hpos hn)⟩
  | finite s m e hm =>
      obtain rfl := Option.some.inj ha
      cases v with
      | notANumber => exact nomatch hb
      | infinity t =>
          obtain rfl := Option.some.inj hb
          cases t
          · exact ⟨.gt, by cases s <;> rfl, EReal.bot_lt_coe _⟩
          · exact ⟨.lt, by cases s <;> rfl, EReal.coe_lt_top _⟩
      | zero t =>
          obtain rfl := Option.some.inj hb
          cases s
          · exact ⟨.lt, rfl, compares_coe (o := .lt).mpr (hneg hm)⟩
          · exact ⟨.gt, rfl, compares_coe (o := .gt).mpr (hpos hm)⟩
      | finite t n f hn =>
          obtain rfl := Option.some.inj hb
          have hparts := compares_parts hu hv
          cases s <;> cases t
          · exact ⟨_, rfl, compares_coe.mpr (compares_neg hparts)⟩
          · exact ⟨.lt, rfl, compares_coe (o := .lt).mpr ((hneg hm).trans (hpos hn))⟩
          · exact ⟨.gt, rfl, compares_coe (o := .gt).mpr ((hneg hn).trans (hpos hm))⟩
          · exact ⟨_, rfl, compares_coe.mpr hparts⟩

theorem compare_eq_none {u v : UnpackedFloat} (h : valueOf u = none ∨ valueOf v = none) :
    u.compare v = none := by
  cases u <;> cases v <;> simp_all [valueOf, UnpackedFloat.compare]

/-- Doubles are less than each other as what they stand for. -/
theorem lt_iff {x y : Float} :
    x < y ↔ ∃ a b, value x = some a ∧ value y = some b ∧ a < b := by
  have hmodel : x < y ↔ (x.toModel.unpack.compare y.toModel.unpack == some .lt) = true :=
    decide_eq_true_iff
  rw [hmodel, beq_iff_eq]
  constructor
  · intro h
    cases ha : value x with
    | none => exact nomatch (compare_eq_none (.inl ha)).symm.trans h
    | some a =>
        cases hb : value y with
        | none => exact nomatch (compare_eq_none (.inr hb)).symm.trans h
        | some b =>
            obtain ⟨o, ho, hcompares⟩ :=
              exists_compare (storable_toModel x).canonical (storable_toModel y).canonical ha hb
            rw [ho] at h
            exact ⟨a, b, rfl, rfl, hcompares.eq_lt.mp (Option.some.inj h)⟩
  · rintro ⟨a, b, ha, hb, hab⟩
    obtain ⟨o, ho, hcompares⟩ :=
      exists_compare (storable_toModel x).canonical (storable_toModel y).canonical ha hb
    rw [ho, hcompares.eq_lt.mpr hab]

theorem le_iff {x y : Float} :
    x ≤ y ↔ ∃ a b, value x = some a ∧ value y = some b ∧ a ≤ b := by
  have hmodel : x ≤ y ↔ (x.toModel.unpack.compare y.toModel.unpack).any (·.isLE) = true :=
    decide_eq_true_iff
  rw [hmodel]
  constructor
  · intro h
    cases ha : value x with
    | none =>
        rw [compare_eq_none (.inl ha)] at h
        exact nomatch h
    | some a =>
        cases hb : value y with
        | none =>
            rw [compare_eq_none (.inr hb)] at h
            exact nomatch h
        | some b =>
            obtain ⟨o, ho, hcompares⟩ :=
              exists_compare (storable_toModel x).canonical (storable_toModel y).canonical ha hb
            rw [ho] at h
            exact ⟨a, b, rfl, rfl, hcompares.ne_gt.mp (Ordering.ne_gt_iff_isLE.mpr h)⟩
  · rintro ⟨a, b, ha, hb, hab⟩
    obtain ⟨o, ho, hcompares⟩ :=
      exists_compare (storable_toModel x).canonical (storable_toModel y).canonical ha hb
    rw [ho]
    exact Ordering.ne_gt_iff_isLE.mp (hcompares.ne_gt.mpr hab)

end LessonDeck.Double
