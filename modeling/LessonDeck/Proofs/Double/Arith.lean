import LessonDeck.Proofs.Double.Value
/-!
# Arithmetic of doubles

The result of an operation does not pass a representable real: what is at most the exact result is at
most what comes out, and what is at least the exact result is at least that.  From such bounds it
follows that a result is a number at all, that it is finite, and which sign it has.
-/

open Float.Model (Format UnpackedFloat totalExponent)
open Float.Model.UnpackedFloat

namespace LessonDeck.Double

def AtLeast (c : ℝ) (x : Float) : Prop :=
  ∃ v, value x = some v ∧ (c : EReal) ≤ v

def AtMost (c : ℝ) (x : Float) : Prop :=
  ∃ v, value x = some v ∧ v ≤ (c : EReal)

/-- A double stands for a real as well as doubles can: it lies on the same side of every other real
that a double stands for. -/
structure Faithful (r : ℝ) (x : Float) : Prop where
  atLeast : ∀ c, Representable c → c ≤ r → AtLeast c x
  atMost : ∀ c, Representable c → r ≤ c → AtMost c x

def ofUnpacked (u : UnpackedFloat) : Float :=
  .ofModel (.pack u)

theorem AtLeast.mono {c d : ℝ} {x : Float} (h : AtLeast c x) (hd : d ≤ c) : AtLeast d x := by
  obtain ⟨v, hv, hle⟩ := h
  exact ⟨v, hv, (EReal.coe_le_coe_iff.mpr hd).trans hle⟩

theorem AtMost.mono {c d : ℝ} {x : Float} (h : AtMost c x) (hd : c ≤ d) : AtMost d x := by
  obtain ⟨v, hv, hle⟩ := h
  exact ⟨v, hv, hle.trans (EReal.coe_le_coe_iff.mpr hd)⟩

theorem atLeast_of_value {p : ℝ} {x : Float} (h : value x = some (p : EReal)) : AtLeast p x :=
  ⟨p, h, le_rfl⟩

theorem atMost_of_value {p : ℝ} {x : Float} (h : value x = some (p : EReal)) : AtMost p x :=
  ⟨p, h, le_rfl⟩

/-- Between two bounds there are only reals. -/
theorem exists_value {a b : ℝ} {x : Float} (ha : AtLeast a x) (hb : AtMost b x) :
    ∃ p : ℝ, value x = some (p : EReal) ∧ a ≤ p ∧ p ≤ b := by
  obtain ⟨v, hv, hle⟩ := ha
  obtain ⟨w, hw, hge⟩ := hb
  obtain rfl := Option.some.inj (hv.symm.trans hw)
  have hbot : v ≠ ⊥ := (EReal.bot_lt_coe a |>.trans_le hle).ne'
  have htop : v ≠ ⊤ := (hge.trans_lt (EReal.coe_lt_top b)).ne
  lift v to ℝ using ⟨htop, hbot⟩
  exact ⟨v, hv, EReal.coe_le_coe_iff.mp hle, EReal.coe_le_coe_iff.mp hge⟩

/-! ## Rounding and storing -/

theorem Representable.lt {c : ℝ} (h : Representable c) : c < 2 ^ (1024 : ℤ) := by
  obtain ⟨a, e, ha, -, hmax, rfl⟩ := h
  have ha' : (a : ℝ) < 2 ^ (53 : ℤ) := by exact_mod_cast (abs_lt.mp ha).2
  have hpow : (2 : ℝ) ^ e ≤ 2 ^ (971 : ℤ) := zpow_le_zpow_right₀ one_le_two hmax
  calc (a : ℝ) * 2 ^ e < 2 ^ (53 : ℤ) * 2 ^ e := mul_lt_mul_of_pos_right ha' (two_zpow_pos e)
    _ ≤ 2 ^ (53 : ℤ) * 2 ^ (971 : ℤ) := mul_le_mul_of_nonneg_left hpow (two_zpow_pos _).le
    _ = 2 ^ (1024 : ℤ) := by rw [← zpow_add₀ two_ne_zero]; norm_num

theorem RoundsTo.value_or {u : UnpackedFloat} {s : Sign} {r : ℝ} {m : ℕ} {e : ℤ}
    (h : RoundsTo u s r m e) :
    value (ofUnpacked u) = some ((signed s (m * 2 ^ e) : ℝ) : EReal) ∨
      value (ofUnpacked u) = some (beyond s) ∧ (2 : ℝ) ^ (1024 : ℤ) ≤ m * 2 ^ e := by
  have hcanonical := h.canonical
  have hparts := h.parts
  change valueOf (stored u) = _ ∨ valueOf (stored u) = _ ∧ _
  rw [ofParts] at hparts
  split at hparts
  · next hzero =>
    left
    rw [hparts, stored_zero, hzero]
    cases s <;> simp [valueOf, signed]
  · next hne =>
    rw [hparts] at hcanonical
    obtain hle | hlt := le_or_gt e 971
    · left
      rw [hparts, stored_of_le hcanonical hle, valueOf]
    · right
      rw [hparts, stored_of_lt hlt]
      have hbig : (2 : ℝ) ^ (52 : ℤ) ≤ m := by exact_mod_cast h.leads.resolve_right (by omega)
      have hpow : (2 : ℝ) ^ (972 : ℤ) ≤ 2 ^ e := zpow_le_zpow_right₀ one_le_two (by omega)
      refine ⟨rfl, ?_⟩
      calc (2 : ℝ) ^ (1024 : ℤ) = 2 ^ (52 : ℤ) * 2 ^ (972 : ℤ) := by
            rw [← zpow_add₀ two_ne_zero]; norm_num
        _ ≤ m * 2 ^ e := mul_le_mul hbig hpow (two_zpow_pos _).le (Nat.cast_nonneg m)

theorem RoundsTo.faithful {u : UnpackedFloat} {s : Sign} {r : ℝ} {m : ℕ} {e : ℤ}
    (h : RoundsTo u s r m e) : Faithful (signed s r) (ofUnpacked u) := by
  have hrounds := h.rounds
  constructor
  · intro c hc hcr
    cases s with
    | positive =>
        have hle := hrounds.lower c hc hcr
        obtain hv | ⟨hv, -⟩ := h.value_or
        · exact ⟨_, hv, EReal.coe_le_coe_iff.mpr hle⟩
        · exact ⟨_, hv, le_top⟩
    | negative =>
        have hle := hrounds.upper (-c) hc.neg (le_neg_of_le_neg hcr)
        obtain hv | ⟨hv, hbig⟩ := h.value_or
        · exact ⟨_, hv, EReal.coe_le_coe_iff.mpr (le_neg_of_le_neg hle)⟩
        · exact absurd hc.neg.lt (hbig.trans hle).not_gt
  · intro c hc hrc
    cases s with
    | positive =>
        have hle := hrounds.upper c hc hrc
        obtain hv | ⟨hv, hbig⟩ := h.value_or
        · exact ⟨_, hv, EReal.coe_le_coe_iff.mpr hle⟩
        · exact absurd hc.lt (hbig.trans hle).not_gt
    | negative =>
        have hle := hrounds.lower (-c) hc.neg (neg_le_of_neg_le hrc)
        obtain hv | ⟨hv, -⟩ := h.value_or
        · exact ⟨_, hv, EReal.coe_le_coe_iff.mpr (neg_le_of_neg_le hle)⟩
        · exact ⟨_, hv, bot_le⟩

theorem faithful_of_value {p : ℝ} {x : Float} (h : value x = some (p : EReal)) : Faithful p x :=
  ⟨fun _ _ hcp ↦ (atLeast_of_value h).mono hcp, fun _ _ hpc ↦ (atMost_of_value h).mono hpc⟩

theorem faithful_normalize (m e : ℤ) (s : Sign) :
    Faithful (m * 2 ^ e) (ofUnpacked (UnpackedFloat.normalize format m e s)) := by
  rw [UnpackedFloat.normalize]
  obtain hneg | rfl | hpos := lt_trichotomy m 0
  · rw [compare_lt_iff_lt.mpr hneg]
    have hne : (-m).toNat ≠ 0 := by omega
    obtain ⟨n, t, h⟩ := exists_roundsTo_round .negative hne e
    have hm : (m : ℝ) = -((-m).toNat : ℝ) := by
      have hcast : ((-m).toNat : ℤ) = -m := Int.toNat_of_nonneg (by omega)
      have hcast' : ((-m).toNat : ℝ) = -(m : ℝ) := by exact_mod_cast hcast
      rw [hcast', neg_neg]
    rw [hm, neg_mul]
    exact h.faithful
  · rw [compare_eq_iff_eq.mpr rfl]
    refine faithful_of_value ?_
    change valueOf (stored (.zero s)) = _
    rw [stored_zero, Int.cast_zero, zero_mul]
    rfl
  · rw [compare_gt_iff_gt.mpr hpos]
    have hne : m.toNat ≠ 0 := by omega
    obtain ⟨n, t, h⟩ := exists_roundsTo_round .positive hne e
    have hm : (m : ℝ) = (m.toNat : ℝ) := by
      have hcast : (m.toNat : ℤ) = m := Int.toNat_of_nonneg (by omega)
      exact_mod_cast hcast.symm
    rw [hm]
    exact h.faithful

/-! ## Sums -/

theorem apply_decreaseExponent (s : Sign) (m : ℕ) {e t : ℤ} (h : t ≤ e) :
    (s.apply ((decreaseExponent m e t).1 : ℕ) : ℤ) * (2 : ℝ) ^ t = signed s (m * 2 ^ e) := by
  rw [← signed_eq, decreaseExponent, Nat.shiftLeft_eq, two_zpow_add_toNat h]
  push_cast
  rw [mul_assoc]

theorem value_eq_of_unpack {x : Float} {u : UnpackedFloat} (h : x.toModel.unpack = u) :
    value x = valueOf u :=
  congrArg valueOf h

theorem add_eq (x y : Float) :
    x + y = ofUnpacked (UnpackedFloat.add format x.toModel.unpack y.toModel.unpack) :=
  rfl

theorem value_ofUnpacked_unpack (x : Float) : value (ofUnpacked x.toModel.unpack) = value x :=
  congrArg valueOf (storable_toModel x).stored_eq

theorem faithful_add {x y : Float} {p q : ℝ} (hx : value x = some (p : EReal))
    (hy : value y = some (q : EReal)) : Faithful (p + q) (x + y) := by
  rw [add_eq]
  obtain ⟨s, hu, rfl⟩ | ⟨s, m, e, hm, hu, rfl⟩ := eq_of_valueOf hx
  · obtain ⟨t, hv, rfl⟩ | ⟨t, n, f, hn, hv, rfl⟩ := eq_of_valueOf hy
    · rw [hu, hv]
      refine faithful_of_value ?_
      rw [add_zero]
      cases s <;> cases t <;> rfl
    · refine faithful_of_value ?_
      rw [zero_add, ← hy, ← value_ofUnpacked_unpack y, hu, hv]
      rfl
  · obtain ⟨t, hv, rfl⟩ | ⟨t, n, f, hn, hv, rfl⟩ := eq_of_valueOf hy
    · refine faithful_of_value ?_
      rw [add_zero, ← hx, ← value_ofUnpacked_unpack x, hu, hv]
      rfl
    · rw [hu, hv, ← apply_decreaseExponent s m (min_le_left e f),
        ← apply_decreaseExponent t n (min_le_right e f), ← add_mul, ← Int.cast_add]
      exact faithful_normalize _ _ _

/-- What is at least some real stands for a real, or it is the positive infinity. -/
theorem AtLeast.real_or {c : ℝ} {x : Float} (h : AtLeast c x) :
    (∃ p : ℝ, value x = some (p : EReal) ∧ c ≤ p) ∨ x.toModel.unpack = .infinity .positive := by
  obtain ⟨v, hv, hle⟩ := h
  obtain ⟨p, rfl⟩ | ⟨s, hu, rfl⟩ := real_or_infinity hv
  · exact .inl ⟨p, hv, EReal.coe_le_coe_iff.mp hle⟩
  · cases s with
    | positive => exact .inr hu
    | negative => exact absurd (EReal.bot_lt_coe c) hle.not_gt

theorem atLeast_of_unpack {c : ℝ} {x : Float} (h : x.toModel.unpack = .infinity .positive) :
    AtLeast c x :=
  ⟨⊤, value_eq_of_unpack h, le_top⟩

theorem atLeast_infinity (c : ℝ) : AtLeast c (ofUnpacked (.infinity .positive)) :=
  ⟨⊤, rfl, le_top⟩

/-- A sum is at least any representable real that the sum of two lower bounds reaches. -/
theorem AtLeast.add {x y : Float} {a b c : ℝ} (hx : AtLeast a x) (hy : AtLeast b y)
    (hc : Representable c) (h : c ≤ a + b) : AtLeast c (x + y) := by
  obtain ⟨p, hp, hap⟩ | hu := hx.real_or
  · obtain ⟨q, hq, hbq⟩ | hv := hy.real_or
    · exact (faithful_add hp hq).atLeast c hc (h.trans (add_le_add hap hbq))
    · rw [add_eq, hv]
      obtain ⟨s, hu, -⟩ | ⟨s, m, e, hm, hu, -⟩ := eq_of_valueOf hp <;> rw [hu] <;>
        exact atLeast_infinity c
  · rw [add_eq, hu]
    obtain ⟨q, hq, -⟩ | hv := hy.real_or
    · obtain ⟨s, hv, -⟩ | ⟨s, m, e, hm, hv, -⟩ := eq_of_valueOf hq <;> rw [hv] <;>
        exact atLeast_infinity c
    · rw [hv]
      exact atLeast_infinity c

/-! ## Differences -/

theorem sub_unpacked (u v : UnpackedFloat) :
    UnpackedFloat.sub format u v = UnpackedFloat.add format u v.neg := by
  cases u with
  | notANumber => rfl
  | infinity s => cases v <;> rfl
  | zero s => cases v <;> rfl
  | finite s m e hm =>
      cases v with
      | notANumber => rfl
      | infinity t => rfl
      | zero t => rfl
      | finite t n f hn =>
          rw [UnpackedFloat.neg, UnpackedFloat.sub, UnpackedFloat.add]
          dsimp only
          rw [sub_eq_add_neg]
          cases t
          · rw [Sign.apply, neg_neg]
            rfl
          · rfl

theorem unpack_neg (y : Float) : (-y).toModel.unpack = y.toModel.unpack.neg :=
  (storable_toModel y).neg.stored_eq

theorem sub_eq (x y : Float) : x - y = x + -y := by
  rw [add_eq, unpack_neg, ← sub_unpacked]
  rfl

theorem value_neg {y : Float} {q : ℝ} (h : value y = some (q : EReal)) :
    value (-y) = some ((-q : ℝ) : EReal) := by
  rw [value, unpack_neg]
  obtain ⟨t, hv, rfl⟩ | ⟨t, n, f, hn, hv, rfl⟩ := eq_of_valueOf h <;> rw [hv]
  · rw [neg_zero]
    rfl
  · cases t
    · rw [signed, neg_neg]
      rfl
    · rfl

theorem faithful_sub {x y : Float} {p q : ℝ} (hx : value x = some (p : EReal))
    (hy : value y = some (q : EReal)) : Faithful (p - q) (x - y) := by
  rw [sub_eq, sub_eq_add_neg]
  exact faithful_add hx (value_neg hy)

/-- What is at most some real stands for a real, or it is the negative infinity. -/
theorem AtMost.real_or {c : ℝ} {y : Float} (h : AtMost c y) :
    (∃ q : ℝ, value y = some (q : EReal) ∧ q ≤ c) ∨ y.toModel.unpack = .infinity .negative := by
  obtain ⟨v, hv, hle⟩ := h
  obtain ⟨q, rfl⟩ | ⟨s, hu, rfl⟩ := real_or_infinity hv
  · exact .inl ⟨q, hv, EReal.coe_le_coe_iff.mp hle⟩
  · cases s with
    | positive => exact absurd (EReal.coe_lt_top c) hle.not_gt
    | negative => exact .inr hu

theorem AtMost.neg {c : ℝ} {y : Float} (h : AtMost c y) : AtLeast (-c) (-y) := by
  obtain ⟨q, hq, hle⟩ | hv := h.real_or
  · exact (atLeast_of_value (value_neg hq)).mono (neg_le_neg hle)
  · refine atLeast_of_unpack ?_
    rw [unpack_neg, hv]
    rfl

theorem AtLeast.sub {x y : Float} {a b c : ℝ} (hx : AtLeast a x) (hy : AtMost b y)
    (hc : Representable c) (h : c ≤ a - b) : AtLeast c (x - y) := by
  rw [sub_eq]
  exact hx.add hy.neg hc h

/-! ## Products and quotients -/

/-- What is not negative is a zero, or its sign is positive. -/
theorem AtLeast.zero_cases {x : Float} (h : AtLeast 0 x) :
    x.toModel.unpack = .infinity .positive ∨ (∃ s, x.toModel.unpack = .zero s) ∨
      ∃ m e hm, x.toModel.unpack = .finite .positive m e hm := by
  obtain ⟨p, hp, hle⟩ | hu := h.real_or
  · obtain ⟨s, hu, -⟩ | ⟨s, m, e, hm, hu, rfl⟩ := eq_of_valueOf hp
    · exact .inr (.inl ⟨s, hu⟩)
    · cases s with
      | positive => exact .inr (.inr ⟨m, e, hm, hu⟩)
      | negative =>
          have hpos : (0 : ℝ) < m * 2 ^ e := mul_pos (Nat.cast_pos.mpr hm) (two_zpow_pos e)
          exact absurd (neg_nonneg.mp hle) hpos.not_ge
  · exact .inl hu

theorem mul_eq (x y : Float) :
    x * y = ofUnpacked (UnpackedFloat.mul format x.toModel.unpack y.toModel.unpack) :=
  rfl

theorem div_eq (x y : Float) :
    x / y = ofUnpacked (UnpackedFloat.div format x.toModel.unpack y.toModel.unpack) :=
  rfl

theorem value_zero (s : Sign) : value (ofUnpacked (.zero s)) = some ((0 : ℝ) : EReal) := by
  cases s <;> rfl

theorem atLeast_zero_ofUnpacked_zero (s : Sign) : AtLeast 0 (ofUnpacked (.zero s)) :=
  atLeast_of_value (value_zero s)

theorem value_notANumber : value (ofUnpacked .notANumber) = none := by
  change valueOf (stored .notANumber) = none
  rw [stored_notANumber, valueOf]

theorem representable_zero : Representable 0 :=
  ⟨0, 0, by norm_num, by norm_num, by norm_num, by norm_num⟩

theorem suffices_mul {m n : ℕ} {e f : ℤ} (hm : m ≠ 0) (hn : n ≠ 0) (he : Leads m e)
    (hf : Leads n f) : Suffices (m * n) (e + f) := by
  have hmn : m * n ≠ 0 := Nat.mul_ne_zero hm hn
  obtain hm' | rfl := he
  · exact .inl ((Nat.le_log2 hmn).mpr (hm'.trans (Nat.le_mul_of_pos_right m (by omega))))
  · obtain hn' | rfl := hf
    · exact .inl ((Nat.le_log2 hmn).mpr (hn'.trans (Nat.le_mul_of_pos_left n (by omega))))
    · exact .inr (by norm_num)

/-- A product of numbers that are not negative is not negative, or not a number. -/
theorem AtLeast.mul {x y : Float} (hx : AtLeast 0 x) (hy : AtLeast 0 y) :
    value (x * y) = none ∨ AtLeast 0 (x * y) := by
  have hsx := storable_toModel x
  have hsy := storable_toModel y
  rw [mul_eq]
  obtain hu | ⟨s, hu⟩ | ⟨m, e, hm, hu⟩ := hx.zero_cases <;>
    obtain hv | ⟨t, hv⟩ | ⟨n, f, hn, hv⟩ := hy.zero_cases <;> rw [hu] at hsx ⊢ <;> rw [hv] at hsy ⊢
  · exact .inr (atLeast_infinity 0)
  · exact .inl value_notANumber
  · exact .inr (atLeast_infinity 0)
  · exact .inl value_notANumber
  · exact .inr (atLeast_zero_ofUnpacked_zero _)
  · exact .inr (atLeast_zero_ofUnpacked_zero _)
  · exact .inr (atLeast_infinity 0)
  · exact .inr (atLeast_zero_ofUnpacked_zero _)
  · obtain ⟨k, g, h⟩ := exists_roundsTo .positive
      (suffices_mul hm.ne' hn.ne' hsx.2.1 hsy.2.1) (cuts_exact (m * n) (e + f))
    have hpos : (0 : ℝ) ≤ (m * n : ℕ) * 2 ^ (e + f) :=
      mul_nonneg (Nat.cast_nonneg _) (two_zpow_pos _).le
    exact .inr (h.faithful.atLeast 0 representable_zero hpos)

/-! ## Quotients -/

theorem cuts_accuracyOfFraction {n d : ℕ} (hd : 0 < d) (e : ℤ) :
    Cuts (ExtendedMantissa.ofMantissaAndAccuracy (n / d) (accuracyOfFraction (n % d) d)) e
      (n / d * 2 ^ e) := by
  have hpos := two_zpow_pos e
  have hd' : (0 : ℝ) < d := Nat.cast_pos.mpr hd
  have hn : (n : ℝ) = d * (n / d : ℕ) + (n % d : ℕ) := by exact_mod_cast (Nat.div_add_mod n d).symm
  rw [accuracyOfFraction]
  split
  · next hexact =>
    rw [hexact, Nat.cast_zero, add_zero] at hn
    have hquot : (n : ℝ) / d = (n / d : ℕ) := by
      rw [hn, mul_div_cancel_left₀ _ hd'.ne']
    rw [hquot]
    exact cuts_exact _ e
  · next hinexact =>
    have hmod : (n % d : ℕ) < d := Nat.mod_lt n hd
    have hbits : ∀ o, Cuts (ExtendedMantissa.ofMantissaAndAccuracy (n / d) (.inexact o)) e
        (n / d * 2 ^ e) := by
      have hlow : ((n / d : ℕ) : ℝ) * 2 ^ e < n / d * 2 ^ e := by
        refine mul_lt_mul_of_pos_right ((lt_div_iff₀ hd').mpr ?_) hpos
        have hrest : (0 : ℝ) < (n % d : ℕ) := Nat.cast_pos.mpr (by omega)
        nlinarith
      have hhigh : n / d * 2 ^ e < (((n / d : ℕ) : ℝ) + 1) * 2 ^ e := by
        refine mul_lt_mul_of_pos_right ((div_lt_iff₀ hd').mpr ?_) hpos
        have hrest : ((n % d : ℕ) : ℝ) < d := Nat.cast_lt.mpr hmod
        nlinarith
      intro o
      cases o <;> exact ⟨hlow, hhigh⟩
    exact hbits _

/-- A quotient whose dividend was shifted far enough has all leading bits of a double. -/
theorem pow_le_shiftLeft_div {m n k : ℕ} (hm : 0 < m) (hn : 0 < n)
    (h : n.log2 + 53 ≤ m.log2 + k) : 2 ^ 52 ≤ m <<< k / n := by
  refine (Nat.le_div_iff_mul_le hn).mpr ?_
  calc 2 ^ 52 * n ≤ 2 ^ 52 * 2 ^ (n.log2 + 1) := Nat.mul_le_mul_left _ Nat.lt_log2_self.le
    _ = 2 ^ (n.log2 + 53) := by rw [← pow_add]; congr 1; omega
    _ ≤ 2 ^ (m.log2 + k) := Nat.pow_le_pow_right two_pos h
    _ = 2 ^ m.log2 * 2 ^ k := pow_add _ _ _
    _ ≤ m <<< k := by
      rw [Nat.shiftLeft_eq]
      exact Nat.mul_le_mul_right _ (Nat.log2_self_le hm.ne')

theorem shiftLeft_div_eq (m : ℕ) {n : ℕ} (hn : 0 < n) {e f g : ℤ} (h : g ≤ e - f) :
    (m : ℝ) * 2 ^ e / (n * 2 ^ f) = ((m <<< (e - f - g).toNat : ℕ) : ℝ) / n * 2 ^ g := by
  have hpow : (2 : ℝ) ^ e = 2 ^ (e - f - g).toNat * 2 ^ g * 2 ^ f := by
    rw [← two_zpow_add_toNat h, ← zpow_add₀ two_ne_zero, sub_add_cancel]
  have hf := (two_zpow_pos f).ne'
  have hn' : (n : ℝ) ≠ 0 := Nat.cast_ne_zero.mpr hn.ne'
  rw [hpow, Nat.shiftLeft_eq]
  push_cast
  field_simp

/-- The quotient that is cut off has all leading bits of a double, or goes down to the smallest
unit. -/
theorem exists_roundsTo_div (s t : Sign) {m n : ℕ} {e f : ℤ} (hm : 0 < m) (hn : 0 < n) :
    ∃ k g, RoundsTo (UnpackedFloat.div format (.finite s m e hm) (.finite t n f hn)) (s / t)
      (m * 2 ^ e / (n * 2 ^ f)) k g := by
  have htarget : format.targetExponent (totalExponent m e - totalExponent n f) =
      max (m.log2 + e - (n.log2 + f) - 53) (-1074) := by
    simp only [Format.targetExponent, totalExponent, Format.mantissaBits, Format.minExponent]
    norm_num
    omega
  rw [UnpackedFloat.div]
  dsimp only [divCore]
  rw [htarget]
  set g := min (e - f) (max (m.log2 + e - (n.log2 + f) - 53) (-1074)) with hg
  have hsuffices : Suffices (m <<< (e - f - g).toNat / n) g := by
    obtain hmin | hmin := le_or_gt g (-1074)
    · exact .inr hmin
    · have hquot := pow_le_shiftLeft_div (k := (e - f - g).toNat) hm hn (by omega)
      exact .inl ((Nat.le_log2 (by omega)).mpr hquot)
  rw [shiftLeft_div_eq m hn (min_le_left _ _ : g ≤ e - f)]
  exact exists_roundsTo _ hsuffices (cuts_accuracyOfFraction hn g)

theorem faithful_div {x y : Float} {p q : ℝ} (hx : value x = some (p : EReal))
    (hy : value y = some (q : EReal)) (hq : q ≠ 0) : Faithful (p / q) (x / y) := by
  rw [div_eq]
  obtain ⟨t, -, rfl⟩ | ⟨t, n, f, hn, hv, rfl⟩ := eq_of_valueOf hy
  · exact (hq rfl).elim
  · rw [hv]
    obtain ⟨s, hu, rfl⟩ | ⟨s, m, e, hm, hu, rfl⟩ := eq_of_valueOf hx
    · rw [hu, zero_div]
      exact faithful_of_value (value_zero (s / t))
    · rw [hu]
      obtain ⟨k, g, h⟩ := exists_roundsTo_div s t (e := e) (f := f) hm hn
      have hsign : signed s (m * 2 ^ e) / signed t (n * 2 ^ f) =
          signed (s / t) (m * 2 ^ e / (n * 2 ^ f)) := by
        cases s <;> cases t
        · exact neg_div_neg_eq _ _
        · exact neg_div _ _
        · exact div_neg _
        · rfl
      rw [hsign]
      exact h.faithful

/-- A quotient of a number that is not negative by a positive one is not negative, or not a
number. -/
theorem AtLeast.div {x y : Float} {c : ℝ} (hx : AtLeast 0 x) (hy : AtLeast c y) (hc : 0 < c) :
    value (x / y) = none ∨ AtLeast 0 (x / y) := by
  obtain ⟨q, hq, hcq⟩ | hv := hy.real_or
  · obtain ⟨p, hp, hle⟩ | hu := hx.real_or
    · have hpos : 0 < q := hc.trans_le hcq
      exact .inr ((faithful_div hp hq hpos.ne').atLeast 0 representable_zero
        (div_nonneg hle hpos.le))
    · obtain ⟨t, -, rfl⟩ | ⟨t, n, f, hn, hv, rfl⟩ := eq_of_valueOf hq
      · exact absurd hcq hc.not_ge
      · rw [div_eq, hu, hv]
        cases t with
        | positive => exact .inr (atLeast_infinity 0)
        | negative =>
            have hneg : -((n : ℝ) * 2 ^ f) < 0 :=
              neg_lt_zero.mpr (mul_pos (Nat.cast_pos.mpr hn) (two_zpow_pos f))
            exact absurd hneg (hc.trans_le hcq).not_gt
  · rw [div_eq, hv]
    obtain hu | ⟨s, hu⟩ | ⟨m, e, hm, hu⟩ := hx.zero_cases <;> rw [hu]
    · exact .inl value_notANumber
    · exact .inr (atLeast_zero_ofUnpacked_zero _)
    · exact .inr (atLeast_zero_ofUnpacked_zero _)

/-! ## What is not a number stays so -/

theorem unpack_eq_notANumber {x : Float} (h : value x = none) :
    x.toModel.unpack = .notANumber := by
  rw [value] at h
  cases hu : x.toModel.unpack with
  | notANumber => rfl
  | _ => simp [hu, valueOf] at h

theorem value_add_of_none {x y : Float} (h : value x = none ∨ value y = none) :
    value (x + y) = none := by
  rw [add_eq, ← value_notANumber]
  obtain h | h := h <;> rw [unpack_eq_notANumber h]
  · rfl
  · cases x.toModel.unpack <;> rfl

theorem value_div_of_none {x y : Float} (h : value x = none) : value (x / y) = none := by
  rw [div_eq, ← value_notANumber, unpack_eq_notANumber h]
  rfl

end LessonDeck.Double
