import Mathlib
/-!
# How doubles round

An exact result is cut off after so many bits, and two residual bits tell what was cut.  Rounding
then never passes a real that a double stands for: what lies below the exact result stays at most
the rounded one, and what lies above stays at least that.  Nothing else is used of rounding, neither
which of two neighbours is taken nor how far away it is.
-/

open Float.Model (Format UnpackedFloat totalExponent)
open Float.Model.UnpackedFloat

namespace LessonDeck.Double

abbrev format : Format :=
  Format.binary64

/-- The reals that doubles stand for. -/
def Representable (c : ℝ) : Prop :=
  ∃ a e : ℤ, |a| < 2 ^ 53 ∧ -1074 ≤ e ∧ e ≤ 971 ∧ c = a * 2 ^ e

/-- The smallest positive double. -/
noncomputable def tiny : ℝ :=
  2 ^ (-1074 : ℤ)

theorem Representable.neg {c : ℝ} (h : Representable c) : Representable (-c) := by
  obtain ⟨a, e, ha, hmin, hmax, rfl⟩ := h
  exact ⟨-a, e, by rwa [abs_neg], hmin, hmax, by push_cast; ring⟩

theorem two_zpow_pos (e : ℤ) : (0 : ℝ) < 2 ^ e :=
  zpow_pos two_pos e

theorem two_zpow_add_toNat {s t : ℤ} (h : s ≤ t) : (2 : ℝ) ^ t = 2 ^ (t - s).toNat * 2 ^ s := by
  rw [← zpow_natCast, ← zpow_add₀ two_ne_zero, Int.toNat_of_nonneg (by omega)]
  congr 1
  omega

/-! ## What unpacked numbers stand for -/

def signed : Sign → ℝ → ℝ
  | .negative, r => -r
  | .positive, r => r

/-- The infinity of a sign. -/
noncomputable def beyond : Sign → EReal
  | .negative => ⊥
  | .positive => ⊤

/-- What an unpacked number stands for. -/
noncomputable def valueOf : UnpackedFloat → Option EReal
  | .notANumber => none
  | .infinity s => some (beyond s)
  | .zero _ => some ((0 : ℝ) : EReal)
  | .finite s mantissa e _ => some ((signed s (mantissa * 2 ^ e) : ℝ) : EReal)

/-! ## Cutting off -/

/-- A real that was cut off to a mantissa at an exponent: the residual bits tell whether something
was lost. -/
def Cuts (em : ExtendedMantissa) (e : ℤ) (r : ℝ) : Prop :=
  if em.roundBit || em.stickyBit then em.mantissa * 2 ^ e < r ∧ r < (em.mantissa + 1) * 2 ^ e
  else r = em.mantissa * 2 ^ e

theorem Cuts.le {em : ExtendedMantissa} {e : ℤ} {r : ℝ} (h : Cuts em e r) :
    em.mantissa * 2 ^ e ≤ r := by
  rw [Cuts] at h
  split at h
  · exact h.1.le
  · exact h.ge

theorem Cuts.lt {em : ExtendedMantissa} {e : ℤ} {r : ℝ} (h : Cuts em e r) :
    r < (em.mantissa + 1) * 2 ^ e := by
  rw [Cuts] at h
  split at h
  · exact h.2
  · rw [h]
    exact mul_lt_mul_of_pos_right (lt_add_one _) (two_zpow_pos e)

theorem Cuts.shiftRightOne {em : ExtendedMantissa} {e : ℤ} {r : ℝ} (h : Cuts em e r) :
    Cuts em.shiftRightOne (e + 1) r := by
  obtain ⟨m, roundBit, stickyBit⟩ := em
  have hpow : (2 : ℝ) ^ (e + 1) = 2 * 2 ^ e := by
    rw [zpow_add_one₀ two_ne_zero]
    ring
  have hpos := two_zpow_pos e
  have hm : (m : ℝ) = 2 * (m / 2 : ℕ) + (m % 2 : ℕ) := by
    exact_mod_cast (Nat.div_add_mod m 2).symm
  have hle := h.le
  have hlt := h.lt
  rw [Cuts, ExtendedMantissa.shiftRightOne, hpow]
  dsimp only at hle hlt ⊢
  obtain hodd | heven := (Nat.mod_two_eq_zero_or_one m).symm
  · rw [hodd, Nat.cast_one] at hm
    rw [hm] at hle hlt
    rw [if_pos (by simp [hodd])]
    constructor <;> nlinarith
  · rw [heven, Nat.cast_zero, add_zero] at hm
    rw [Cuts, hm] at h
    dsimp only at h
    rw [heven]
    cases hbits : roundBit || stickyBit with
    | false =>
        rw [hbits, if_neg Bool.false_ne_true] at h
        rw [if_neg (by simp), h]
        ring
    | true =>
        rw [hbits, if_pos rfl] at h
        rw [if_pos (by simp)]
        constructor <;> nlinarith [h.1, h.2]

theorem Cuts.shiftRight {em : ExtendedMantissa} {e : ℤ} {r : ℝ} (h : Cuts em e r) (k : ℕ) :
    Cuts (em >>> k) (e + k) r := by
  change Cuts (k.repeat ExtendedMantissa.shiftRightOne em) _ _
  induction k with
  | zero => simpa [Nat.repeat] using h
  | succ k ih =>
      rw [Nat.repeat, Nat.cast_succ, ← add_assoc]
      exact ih.shiftRightOne

theorem mantissa_shiftRight (em : ExtendedMantissa) (k : ℕ) :
    (em >>> k).mantissa = em.mantissa / 2 ^ k := by
  change (k.repeat ExtendedMantissa.shiftRightOne em).mantissa = _
  induction k with
  | zero => simp [Nat.repeat]
  | succ k ih =>
      rw [Nat.repeat, ExtendedMantissa.shiftRightOne, ih, Nat.div_div_eq_div_mul, pow_succ]

theorem roundedMantissa_eq (em : ExtendedMantissa) :
    em.roundedMantissa = em.mantissa ∨
      em.roundedMantissa = em.mantissa + 1 ∧ (em.roundBit || em.stickyBit) = true := by
  obtain ⟨m, roundBit, stickyBit⟩ := em
  cases roundBit <;> cases stickyBit
  · exact .inl rfl
  · exact .inl rfl
  · obtain heven | hodd := Nat.mod_two_eq_zero_or_one m
    · exact .inl (congrArg (m + ·) heven)
    · exact .inr ⟨congrArg (m + ·) hodd, rfl⟩
  · exact .inr ⟨rfl, rfl⟩

/-! ## No representable real is passed -/

/-- A double with this mantissa and exponent may stand for a real: no representable real lies
strictly between the two. -/
structure Rounds (mantissa : ℕ) (e : ℤ) (r : ℝ) : Prop where
  lower : ∀ c, Representable c → c ≤ r → c ≤ mantissa * 2 ^ e
  upper : ∀ c, Representable c → r ≤ c → mantissa * 2 ^ e ≤ c

/-- What is cut off keeps all leading bits of a double, or reaches down to the smallest unit. -/
def Leads (mantissa : ℕ) (e : ℤ) : Prop :=
  2 ^ 52 ≤ mantissa ∨ e = -1074

/-- A representable real is a multiple of the unit of what was cut off, or it is too small to reach
its leading bit. -/
theorem Representable.grid {c : ℝ} (h : Representable c) {mantissa : ℕ} {e : ℤ}
    (hlead : Leads mantissa e) :
    (∃ n : ℤ, c = n * 2 ^ e) ∨ c < mantissa * 2 ^ e := by
  obtain ⟨a, f, ha, hf, -, rfl⟩ := h
  obtain hef | hfe := le_or_gt e f
  · refine .inl ⟨a * 2 ^ (f - e).toNat, ?_⟩
    rw [two_zpow_add_toNat hef]
    push_cast
    ring
  · right
    have hbig : 2 ^ 52 ≤ mantissa := hlead.resolve_right (by omega)
    have ha' : (a : ℝ) < 2 ^ 53 := by exact_mod_cast (abs_lt.mp ha).2
    have hm : (2 : ℝ) ^ 52 ≤ mantissa := by exact_mod_cast hbig
    have hpow : (2 : ℝ) ^ (f + 1) ≤ 2 ^ e := zpow_le_zpow_right₀ one_le_two (by omega)
    calc (a : ℝ) * 2 ^ f < 2 ^ 53 * 2 ^ f := mul_lt_mul_of_pos_right ha' (two_zpow_pos f)
      _ = 2 ^ 52 * 2 ^ (f + 1) := by rw [zpow_add_one₀ two_ne_zero]; ring
      _ ≤ mantissa * 2 ^ e := mul_le_mul hm hpow (two_zpow_pos _).le (by positivity)

theorem Cuts.rounds {em : ExtendedMantissa} {e : ℤ} {r : ℝ} (h : Cuts em e r)
    (hlead : Leads em.mantissa e) : Rounds em.roundedMantissa e r := by
  have hpos := two_zpow_pos e
  constructor
  · intro c hc hcr
    have hbelow : c ≤ em.mantissa * 2 ^ e := by
      obtain ⟨n, rfl⟩ | hsmall := hc.grid hlead
      · have hn : (n : ℝ) < em.mantissa + 1 := lt_of_mul_lt_mul_right (hcr.trans_lt h.lt) hpos.le
        have hn' : n < em.mantissa + 1 := by exact_mod_cast hn
        have hle : (n : ℝ) ≤ em.mantissa := by exact_mod_cast Int.lt_add_one_iff.mp hn'
        exact mul_le_mul_of_nonneg_right hle hpos.le
      · exact hsmall.le
    have hup : (em.mantissa : ℝ) ≤ em.roundedMantissa := by
      obtain heq | ⟨heq, -⟩ := roundedMantissa_eq em <;> rw [heq]
      push_cast
      exact (lt_add_one _).le
    exact hbelow.trans (mul_le_mul_of_nonneg_right hup hpos.le)
  · intro c hc hrc
    obtain heq | ⟨heq, hbits⟩ := roundedMantissa_eq em
    · rw [heq]
      exact h.le.trans hrc
    · rw [Cuts, if_pos hbits] at h
      obtain ⟨n, rfl⟩ | hsmall := hc.grid hlead
      · have hn : (em.mantissa : ℝ) < n := lt_of_mul_lt_mul_right (h.1.trans_le hrc) hpos.le
        have hn' : (em.mantissa : ℤ) < n := by exact_mod_cast hn
        have hle : ((em.mantissa + 1 : ℕ) : ℝ) ≤ n := by exact_mod_cast Int.add_one_le_iff.mpr hn'
        rw [heq]
        exact mul_le_mul_of_nonneg_right hle hpos.le
      · exact absurd (h.1.trans_le hrc) hsmall.not_gt

/-! ## The exponent of the result -/

theorem targetExponent_eq (mantissa : ℕ) (e : ℤ) :
    format.targetExponent (totalExponent mantissa e) = max (mantissa.log2 + e - 52) (-1074) := by
  simp only [Format.targetExponent, totalExponent, Format.mantissaBits, Format.minExponent]
  norm_num
  omega

/-- The mantissa has all leading bits of a double, or goes down to the smallest unit, so that bits
are only cut off when it is rounded. -/
def Suffices (mantissa : ℕ) (e : ℤ) : Prop :=
  52 ≤ mantissa.log2 ∨ e ≤ -1074

theorem Suffices.le_targetExponent {mantissa : ℕ} {e : ℤ} (h : Suffices mantissa e) :
    e ≤ format.targetExponent (totalExponent mantissa e) := by
  rw [targetExponent_eq]
  rcases h with h | h <;> omega

theorem pow_le_div_pow {n k : ℕ} (h : n ≠ 0) (hk : k ≤ n.log2) : 2 ^ (n.log2 - k) ≤ n / 2 ^ k := by
  rw [Nat.le_div_iff_mul_le (Nat.two_pow_pos k), ← pow_add, Nat.sub_add_cancel hk]
  exact Nat.log2_self_le h

theorem div_pow_lt {n k j : ℕ} (h : n.log2 < j + k) : n / 2 ^ k < 2 ^ j := by
  rw [Nat.div_lt_iff_lt_mul (Nat.two_pow_pos k), ← pow_add]
  exact Nat.lt_log2_self.trans_le (Nat.pow_le_pow_right two_pos h)

/-- The first shift leaves at most the bits of a double, and the leading ones. -/
theorem shift_bounds {mantissa : ℕ} {e : ℤ} (h : Suffices mantissa e) {k : ℕ}
    (hk : e + k = format.targetExponent (totalExponent mantissa e)) :
    mantissa / 2 ^ k < 2 ^ 53 ∧ Leads (mantissa / 2 ^ k) (e + k) ∧ -1074 ≤ e + k := by
  rw [targetExponent_eq] at hk
  refine ⟨div_pow_lt (by omega), ?_, by omega⟩
  obtain hmin | hmin := eq_or_ne (e + k) (-1074)
  · exact .inr hmin
  · have hlog : mantissa.log2 = 52 + k := by omega
    have hpos : mantissa ≠ 0 := by
      rintro rfl
      rw [Nat.log2_zero] at hlog
      omega
    refine .inl ?_
    have hle := pow_le_div_pow hpos (k := k) (by omega)
    rwa [hlog, Nat.add_sub_cancel] at hle

/-! ## Rounding to a double -/

/-- The number of a sign, a mantissa and an exponent; a mantissa of zero makes a zero. -/
def ofParts (s : Sign) (mantissa : ℕ) (e : ℤ) : UnpackedFloat :=
  if h : mantissa = 0 then .zero s else .finite s mantissa e (Nat.pos_of_ne_zero h)

theorem shiftToTargetExponent_of_lt {mantissa : ℕ} {e : ℤ} (h : mantissa < 2 ^ 53)
    (hmin : -1074 ≤ e) :
    shiftToTargetExponent format mantissa e .exact = (⟨mantissa, false, false⟩, e) := by
  have hlog : mantissa.log2 ≤ 52 := by
    obtain rfl | hpos := eq_or_ne mantissa 0
    · simp
    · exact Nat.lt_succ_iff.mp ((Nat.log2_lt hpos).mpr h)
  have hshift : (format.targetExponent (totalExponent mantissa e) - e).toNat = 0 := by
    rw [targetExponent_eq]
    omega
  rw [shiftToTargetExponent, shiftToExponent, hshift, Nat.cast_zero, add_zero]
  rfl

theorem shiftToTargetExponent_carry {e : ℤ} (hmin : -1074 ≤ e) :
    shiftToTargetExponent format (2 ^ 53) e .exact = (⟨2 ^ 52, false, false⟩, e + 1) := by
  have hshift : (format.targetExponent (totalExponent (2 ^ 53) e) - e).toNat = 1 := by
    rw [targetExponent_eq, Nat.log2_two_pow]
    omega
  rw [shiftToTargetExponent, shiftToExponent, hshift, Nat.cast_one]
  rfl

/-- A result of rounding: the number of a mantissa that fits a double, with the value that rounding
has given. -/
structure RoundsTo (u : UnpackedFloat) (s : Sign) (r : ℝ) (mantissa : ℕ) (e : ℤ) : Prop where
  parts : u = ofParts s mantissa e
  lt : mantissa < 2 ^ 53
  leads : Leads mantissa e
  min : -1074 ≤ e
  rounds : Rounds mantissa e r

theorem exists_roundsTo (s : Sign) {mantissa : ℕ} {e : ℤ} {a : Accuracy} {r : ℝ}
    (h : Suffices mantissa e)
    (hr : Cuts (ExtendedMantissa.ofMantissaAndAccuracy mantissa a) e r) :
    ∃ m t, RoundsTo (roundWithAccuracy format s mantissa e a) s r m t := by
  obtain ⟨k, hk⟩ : ∃ k, k = (format.targetExponent (totalExponent mantissa e) - e).toNat := ⟨_, rfl⟩
  have htarget : e + k = format.targetExponent (totalExponent mantissa e) := by
    have hle := h.le_targetExponent
    omega
  obtain ⟨hlt, hlead, hmin⟩ := shift_bounds h htarget
  set em := ExtendedMantissa.ofMantissaAndAccuracy mantissa a >>> k with hem
  have hmantissa : em.mantissa = mantissa / 2 ^ k := by
    rw [hem, mantissa_shiftRight]
    cases a with
    | exact => rfl
    | inexact o => cases o <;> rfl
  rw [← hmantissa] at hlt hlead
  have hrounds : Rounds em.roundedMantissa (e + k) r := (hr.shiftRight k).rounds hlead
  have hfirst : shiftToTargetExponent format mantissa e a = (em, e + k) := by
    rw [shiftToTargetExponent, shiftToExponent, ← hk]
  have hle : em.mantissa ≤ em.roundedMantissa ∧ em.roundedMantissa ≤ 2 ^ 53 := by
    obtain heq | ⟨heq, -⟩ := roundedMantissa_eq em <;> omega
  obtain hsmall | hcarry := hle.2.lt_or_eq
  · refine ⟨em.roundedMantissa, e + k, ?_, hsmall, hlead.imp_left hle.1.trans', hmin, hrounds⟩
    simp only [roundWithAccuracy, hfirst, shiftToTargetExponent_of_lt hsmall hmin]
    rfl
  · -- The carry out of the leading bit only moves the point.
    have hvalue : ((2 ^ 52 : ℕ) : ℝ) * 2 ^ (e + k + 1) = (em.roundedMantissa : ℝ) * 2 ^ (e + k) := by
      rw [hcarry, zpow_add_one₀ two_ne_zero]
      push_cast
      ring
    refine ⟨2 ^ 52, e + k + 1, ?_, by norm_num, .inl le_rfl, by omega, ?_, ?_⟩
    · simp only [roundWithAccuracy, hfirst, hcarry, shiftToTargetExponent_carry hmin]
      rfl
    · intro c hc hcr
      rw [hvalue]
      exact hrounds.lower c hc hcr
    · intro c hc hrc
      rw [hvalue]
      exact hrounds.upper c hc hrc

theorem cuts_exact (mantissa : ℕ) (e : ℤ) :
    Cuts (ExtendedMantissa.ofMantissaAndAccuracy mantissa .exact) e (mantissa * 2 ^ e) :=
  rfl

theorem log2_shiftLeft {n : ℕ} (h : n ≠ 0) (k : ℕ) : (n <<< k).log2 = n.log2 + k := by
  induction k with
  | zero => rfl
  | succ k ih =>
      have hne : n <<< k ≠ 0 := by simpa [Nat.shiftLeft_eq] using h
      rw [Nat.shiftLeft_succ, Nat.log2_two_mul hne, ih, add_assoc]

/-- Rounding a mantissa at an exponent, which may have to be lowered first. -/
theorem exists_roundsTo_round (s : Sign) {mantissa : ℕ} (h : mantissa ≠ 0) (e : ℤ) :
    ∃ m t, RoundsTo (Float.Model.UnpackedFloat.round format s mantissa e) s
      (mantissa * 2 ^ e) m t := by
  rw [Float.Model.UnpackedFloat.round]
  dsimp only
  rw [decreaseExponent, targetExponent_eq]
  set k := (e - max (mantissa.log2 + e - 52) (-1074)).toNat with hk
  have hlog : (mantissa <<< k).log2 = mantissa.log2 + k := log2_shiftLeft h k
  have hsuffices : Suffices (mantissa <<< k) (e - k) := by
    rw [Suffices, hlog]
    omega
  have hvalue : ((mantissa <<< k : ℕ) : ℝ) * 2 ^ (e - k) = mantissa * 2 ^ e := by
    rw [Nat.shiftLeft_eq, two_zpow_add_toNat (s := e - k) (t := e) (by omega)]
    push_cast
    rw [show (e - (e - (k : ℤ))).toNat = k by omega]
    ring
  rw [← hvalue]
  exact exists_roundsTo s hsuffices (cuts_exact _ _)

end LessonDeck.Double
