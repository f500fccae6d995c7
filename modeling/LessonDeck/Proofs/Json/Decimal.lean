import LessonDeck.Proofs.Double.Bounds
import LessonDeck.Proofs.Json.Layout
/-!
# Doubles come back as doubles

The shortest decimal of a double is at most about twice as great as the double itself, so that the
decimal of a double of no great size is no greater than a word and is read without overflow: what was
written as a double is read back as one.
-/

namespace LessonDeck

open Double Text
open Float.Model (Format)
open Float.Model.UnpackedFloat (Sign unpack)

/-! ## The parts of a double -/

namespace Decimal

theorem toNat_unpackExponent (b : BitVec format.numBits) :
    (@Float.Model.UnpackedFloat.unpackExponent format b).toNat = b.toNat / 2 ^ 52 % 2 ^ 11 := by
  rw [Float.Model.UnpackedFloat.unpackExponent, BitVec.toNat_cast, BitVec.extractLsb_toNat,
    Nat.shiftRight_eq_div_pow]
  rfl

theorem toNat_unpackMantissa (b : BitVec format.numBits) :
    (@Float.Model.UnpackedFloat.unpackMantissa format b).toNat = b.toNat % 2 ^ 52 := by
  rw [Float.Model.UnpackedFloat.unpackMantissa, BitVec.toNat_cast, BitVec.extractLsb_toNat]
  rfl

theorem abs_signed (s : Sign) {r : ℝ} (h : 0 ≤ r) : |Double.signed s r| = r := by
  cases s
  · rw [Double.signed, abs_neg, abs_of_nonneg h]
  · exact abs_of_nonneg h

/-- A double that stands for a real decodes to its mantissa and its exponent. -/
theorem exists_decode {x : Float} {p : ℝ} (h : value x = some (p : EReal)) :
    ∃ negative significand exponent, decode x = .finite negative significand exponent ∧
      |p| = significand * 2 ^ exponent := by
  have hexponent := toNat_unpackExponent x.toModel.toBits.toBitVec
  have hmantissa := toNat_unpackMantissa x.toModel.toBits.toBitVec
  change _ = x.toBits.toNat / Nat.pow 2 52 % Nat.pow 2 11 at hexponent
  change _ = x.toBits.toNat % Nat.pow 2 52 at hmantissa
  change valueOf (unpack format x.toModel.toBits.toBitVec) = _ at h
  rw [unpack] at h
  dsimp only at h
  split at h
  · split at h
    · obtain ⟨s, hu, -⟩ | ⟨s, m, e, hm, hu, -⟩ := eq_of_valueOf h <;> exact nomatch hu
    · exact nomatch h
  · next hinf =>
    have hmax : x.toBits.toNat / Nat.pow 2 52 % Nat.pow 2 11 ≠ 2047 :=
      hexponent ▸ fun heq ↦ hinf (BitVec.eq_of_toNat_eq heq)
    split at h
    · next hzero =>
      have hbiased : x.toBits.toNat / Nat.pow 2 52 % Nat.pow 2 11 = 0 := by
        rw [← hexponent, hzero]
        rfl
      refine ⟨_, _, _, (if_neg hmax).trans (if_pos hbiased), ?_⟩
      split at h
      · next hnone =>
        rw [hnone] at hmantissa
        obtain ⟨s, -, rfl⟩ | ⟨s, m, e, hm, hu, -⟩ := eq_of_valueOf h
        · rw [← hmantissa]
          simp
        · exact nomatch hu
      · obtain rfl := EReal.coe_injective (Option.some.inj h)
        rw [abs_signed _ (mul_nonneg (Nat.cast_nonneg _) (two_zpow_pos _).le), hmantissa, hexponent,
          hbiased]
        norm_num [Format.exponentBias]
    · next hpos =>
      have hbiased : x.toBits.toNat / Nat.pow 2 52 % Nat.pow 2 11 ≠ 0 :=
        hexponent ▸ fun heq ↦ hpos (BitVec.eq_of_toNat_eq heq)
      refine ⟨_, _, _, (if_neg hmax).trans (if_neg hbiased), ?_⟩
      obtain rfl := EReal.coe_injective (Option.some.inj h)
      rw [abs_signed _ (mul_nonneg (Nat.cast_nonneg _) (two_zpow_pos _).le), toNat_append_one,
        hmantissa, hexponent]
      rfl

/-! ## The shortest decimal is not much greater -/

theorem pow_toNat_eq {a : ℝ} (ha : a ≠ 0) (n : ℤ) : a ^ n.toNat = a ^ n * a ^ (-n).toNat := by
  rw [← zpow_natCast, ← zpow_natCast, ← zpow_add₀ ha]
  congr 1
  omega

/-- The value of a decimal. -/
noncomputable def Scaled.value (s : Scaled) : ℝ :=
  s.digits * 10 ^ s.exponent

/-- A decimal of an interval is at most its upper end. -/
theorem value_le_of_onGrid? {i : Interval} {exponent power : ℤ} {s : Scaled}
    (h : onGrid? i exponent power = some s) : 4 * s.value ≤ i.high * 2 ^ exponent := by
  have hinside : s.exponent = power ∧
      s.digits * (4 * Nat.pow 2 (-exponent).toNat * Nat.pow 10 power.toNat) ≤
        i.high * (Nat.pow 2 exponent.toNat * Nat.pow 10 (-power).toNat) := by
    have hle : ∀ {low d up unit : ℕ}, (if i.closed then low * up ≤ d * unit && d * unit ≤ i.high * up
        else low * up < d * unit && d * unit < i.high * up) = true → d * unit ≤ i.high * up := by
      intro low d up unit hd
      split at hd
      · exact of_decide_eq_true (Bool.and_eq_true_iff.mp hd).2
      · exact (of_decide_eq_true (Bool.and_eq_true_iff.mp hd).2).le
    rw [onGrid?] at h
    split at h
    · simp at h
    · next hbelow _ =>
      obtain rfl := Option.some.inj h
      exact ⟨rfl, hle (Bool.and_eq_true_iff.mp hbelow).2⟩
    · next _ habove =>
      obtain rfl := Option.some.inj h
      exact ⟨rfl, hle habove⟩
    · next hbelow habove =>
      split at h
      · obtain rfl := Option.some.inj h
        exact ⟨rfl, hle (Bool.and_eq_true_iff.mp hbelow).2⟩
      · obtain rfl := Option.some.inj h
        exact ⟨rfl, hle habove⟩
  obtain ⟨rfl, hle⟩ := hinside
  have hle' : (s.digits : ℝ) * (4 * 2 ^ (-exponent).toNat * 10 ^ s.exponent.toNat) ≤
      i.high * (2 ^ exponent.toNat * 10 ^ (-s.exponent).toNat) := by exact_mod_cast hle
  rw [pow_toNat_eq (a := 10) (by norm_num) s.exponent, pow_toNat_eq two_ne_zero exponent] at hle'
  have hpos : (0 : ℝ) < 2 ^ (-exponent).toNat * 10 ^ (-s.exponent).toNat := by positivity
  refine le_of_mul_le_mul_right ?_ hpos
  rw [Scaled.value]
  linarith

theorem value_firstGrid_le (i : Interval) (exponent : ℤ) (finer : ℕ) (power : ℤ) :
    4 * (firstGrid i exponent finer power).value ≤ i.high * 2 ^ exponent := by
  induction finer generalizing power with
  | zero =>
      rw [firstGrid]
      cases h : onGrid? i exponent power with
      | none =>
          have hzero : Scaled.value ⟨0, 0⟩ = 0 := by simp [Scaled.value]
          rw [Option.getD_none, hzero, mul_zero]
          positivity
      | some s => exact value_le_of_onGrid? h
  | succ finer ih =>
      rw [firstGrid]
      cases h : onGrid? i exponent power with
      | none => exact ih (power - 1)
      | some s => exact value_le_of_onGrid? h

theorem value_shortest_le {significand : ℕ} (h : significand ≠ 0) (exponent : ℤ) :
    (shortest significand exponent).value ≤ 2 * (significand * 2 ^ exponent) := by
  have hle := value_firstGrid_le (interval significand exponent) exponent 18
    (leadingPower (significand * Nat.pow 2 exponent.toNat) (Nat.pow 2 (-exponent).toNat) 8
      (guessPower (significand * Nat.pow 2 exponent.toNat) (Nat.pow 2 (-exponent).toNat)) + 1)
  have hone : (1 : ℝ) ≤ significand := by exact_mod_cast Nat.one_le_iff_ne_zero.mpr h
  have hhigh : ((interval significand exponent).high : ℝ) = 4 * significand + 2 := by
    rw [interval]
    push_cast
    ring
  rw [hhigh] at hle
  have hpos := two_zpow_pos exponent
  change 4 * (shortest significand exponent).value ≤ _ at hle
  nlinarith

end Decimal

namespace Json

/-! ## Small literals are read without overflow -/

namespace Literal

/-- Scaling down always gives a double. -/
theorem exists_scale (x : Float) {power : ℤ} (h : power < 0) : ∃ y, scale x power = some y := by
  fun_induction scale x power with
  | case1 x power hsmall hup scaled hinf => omega
  | case2 x power hsmall hup scaled hinf => omega
  | case3 x power hsmall hdown => exact ⟨_, rfl⟩
  | case4 x power hlarge hzero => exact ⟨_, rfl⟩
  | case5 x power hlarge hzero hup => omega
  | case6 x power hlarge hzero hdown ih => exact ih (by rw [maxPower] at *; omega)

theorem digit_le {c : Char} (h : c.isDigit = true) : digit c ≤ 9 := by
  obtain ⟨-, hle⟩ := Bool.and_eq_true_iff.mp h
  have hle' : c.toNat ≤ 57 := of_decide_eq_true hle
  change c.toNat - 48 ≤ 9
  omega

/-- Few digits are all taken into the significand. -/
theorem absorb_eq {cs : List Char} (h : ∀ c ∈ cs, c.isDigit = true) {significand places : ℕ}
    (hs : significand < 10 ^ places) (hlength : places + cs.length ≤ 19) :
    ∃ n, absorb significand cs = (n, []) ∧ n < 10 ^ (places + cs.length) := by
  induction cs generalizing significand places with
  | nil => exact ⟨significand, rfl, hs⟩
  | cons c cs ih =>
      obtain ⟨hc, hcs⟩ := List.forall_mem_cons.mp h
      rw [List.length_cons] at hlength
      have hdigit := digit_le hc
      have hnext : significand * 10 + digit c < 10 ^ (places + 1) := by
        rw [pow_succ]
        omega
      have hword : significand * 10 + digit c ≤ maxWord := by
        have hpow : 10 ^ (places + 1) ≤ 10 ^ 19 := Nat.pow_le_pow_right (by norm_num) (by omega)
        rw [maxWord]
        omega
      rw [absorb, if_pos hword]
      obtain ⟨n, hn, hlt⟩ := ih hcs hnext (by omega)
      refine ⟨n, hn, ?_⟩
      rwa [List.length_cons, Nat.add_comm cs.length 1, ← Nat.add_assoc]

theorem length_absorb_le (significand : ℕ) (cs : List Char) :
    (absorb significand cs).2.length ≤ cs.length := by
  induction cs generalizing significand with
  | nil => exact le_rfl
  | cons c cs ih =>
      rw [absorb]
      split
      · exact (ih _).trans (Nat.le_succ _)
      · exact le_rfl

/-- Digits behind the point scale down. -/
theorem mantissa_neg {l : Literal} {ds : List Char} (hwhole : ∀ c ∈ l.whole, c.isDigit = true)
    (hlength : l.whole.length ≤ 18) (hfraction : l.fraction = some ds) (hds : IsNumeral ds) :
    l.mantissa.2 < 0 := by
  obtain ⟨d, rest, rfl⟩ := List.exists_cons_of_ne_nil hds.1
  have hzero : 0 < 10 ^ 0 := by norm_num
  obtain ⟨n, hn, hlt⟩ := absorb_eq hwhole hzero (by omega)
  have hfirst : (absorb n (d :: rest)).2.length ≤ rest.length := by
    have hdigit := digit_le (hds.2 d List.mem_cons_self)
    have hpow : 10 ^ (0 + l.whole.length) ≤ 10 ^ 18 := Nat.pow_le_pow_right (by norm_num) (by omega)
    have hword : n * 10 + digit d ≤ maxWord := by
      rw [maxWord]
      omega
    rw [absorb, if_pos hword]
    exact length_absorb_le _ rest
  rw [mantissa, hn, hfraction, Option.getD_some]
  dsimp only
  rw [List.length_nil, List.length_cons]
  omega

theorem mantissa_of_none {l : Literal} (hwhole : ∀ c ∈ l.whole, c.isDigit = true)
    (hlength : l.whole.length ≤ 18) (hfraction : l.fraction = none) : l.mantissa.2 = 0 := by
  have hzero : 0 < 10 ^ 0 := by norm_num
  obtain ⟨n, hn, -⟩ := absorb_eq hwhole hzero (by omega)
  rw [mantissa, hn, hfraction]
  rfl

theorem value_of_toFloat? {l : Literal} {x : Float}
    (h : l.fraction.isNone = false ∨ l.exponent.isNone = false) (hx : l.toFloat? = some x) :
    l.value = .float x := by
  have hwhole : (l.fraction.isNone && l.exponent.isNone) = false := Bool.and_eq_false_iff.mpr h
  rw [value, hwhole, hx]
  rfl

/-- A literal without exponent is scaled by its places alone. -/
theorem exists_value_of_fraction {l : Literal} {ds : List Char} (he : l.exponent = none)
    (hfraction : l.fraction = some ds) (hds : IsNumeral ds)
    (hwhole : ∀ c ∈ l.whole, c.isDigit = true) (hlength : l.whole.length ≤ 18) :
    ∃ x, l.value = .float x := by
  obtain ⟨y, hy⟩ := exists_scale (Float.ofNat l.mantissa.1)
    (mantissa_neg hwhole hlength hfraction hds)
  have hx : ∃ x, l.toFloat? = some x := by
    rw [toFloat?, he]
    dsimp only
    rw [hy]
    exact ⟨_, rfl⟩
  obtain ⟨x, hx⟩ := hx
  exact ⟨x, value_of_toFloat? (.inl (by rw [hfraction]; rfl)) hx⟩

theorem exists_value_of_down {l : Literal} {digits : List Char}
    (he : l.exponent = some (true, digits)) (hpos : 0 < Nat.ofDigitChars 10 digits 0)
    (hm : l.mantissa.2 ≤ 0) : ∃ x, l.value = .float x := by
  have hx : ∃ x, l.toFloat? = some x := by
    rw [toFloat?, he]
    dsimp only
    split
    · exact ⟨_, if_neg (by simp)⟩
    · have hpower : l.mantissa.2 - Nat.ofDigitChars 10 digits 0 < 0 := by omega
      obtain ⟨y, hy⟩ := exists_scale (Float.ofNat l.mantissa.1) hpower
      rw [if_pos rfl, hy]
      exact ⟨_, rfl⟩
  obtain ⟨x, hx⟩ := hx
  exact ⟨x, value_of_toFloat? (.inr (by rw [he]; rfl)) hx⟩

/-- A decimal below a power of ten has at most so many places before its point. -/
theorem whole_le {s : Decimal.Scaled} (hlead : s.HasLead) (h : s.value < 10 ^ (16 : ℤ)) :
    (natDigits s.digits).length + s.exponent ≤ 16 := by
  have hlength : 0 < (natDigits s.digits).length := Nat.length_toDigits_pos
  obtain hzero | hpos := Nat.eq_zero_or_pos s.digits
  · have hexponent : s.exponent = 0 := hlead.resolve_left (by omega)
    rw [hzero, hexponent]
    decide
  · have hdigits : 10 ^ ((natDigits s.digits).length - 1) ≤ s.digits := by
      obtain hone | hmany := Nat.lt_or_ge 1 (natDigits s.digits).length
      · by_contra hlt
        have hshort : (natDigits s.digits).length ≤ (natDigits s.digits).length - 1 :=
          (Nat.length_toDigits_le_iff (by norm_num) (by omega)).mpr (by omega)
        omega
      · rwa [show (natDigits s.digits).length - 1 = 0 by omega, pow_zero]
    have hdigits' : (10 : ℝ) ^ ((natDigits s.digits).length - 1 : ℤ) ≤ s.digits := by
      have hcast : (10 : ℝ) ^ ((natDigits s.digits).length - 1) ≤ s.digits := by
        exact_mod_cast hdigits
      rwa [← zpow_natCast, Nat.cast_pred hlength] at hcast
    have hlt : (10 : ℝ) ^ ((natDigits s.digits).length - 1 + s.exponent : ℤ) < 10 ^ (16 : ℤ) := by
      rw [zpow_add₀ (by norm_num)]
      refine lt_of_le_of_lt (mul_le_mul_of_nonneg_right hdigits' ?_) h
      positivity
    have hexponents := (zpow_lt_zpow_iff_right₀ (by norm_num)).mp hlt
    omega

/-- A decimal of no great size is written as a literal that is read as a double. -/
theorem exists_value_ofScaled {s : Decimal.Scaled} (negative : Bool)
    (hwhole : (natDigits s.digits).length + s.exponent ≤ 16) :
    ∃ x, (ofScaled negative s).value = .float x := by
  have hnumeral := isNumeral_natDigits s.digits
  have hlength : 0 < (natDigits s.digits).length := List.length_pos_of_ne_nil hnumeral.1
  rw [ofScaled]
  generalize hpower : ((natDigits s.digits).length : ℤ) + s.exponent = whole at *
  split
  · next h =>
    have hdigits := isNumeral_append_zeros hnumeral s.exponent.toNat
    have hshort : (natDigits s.digits ++ Decimal.zeros s.exponent.toNat).length ≤ 18 := by
      rw [List.length_append, Decimal.zeros, List.length_replicate]
      omega
    exact exists_value_of_fraction rfl rfl (isNumeral_natDigits 0) hdigits.2 hshort
  split
  · next h₁ h₂ =>
    have htake := isNumeral_take hnumeral (n := whole.toNat) (by omega)
    have hdrop := isNumeral_drop hnumeral (n := whole.toNat) (by omega)
    have hshort : ((natDigits s.digits).take whole.toNat).length ≤ 18 := by
      rw [List.length_take]
      omega
    exact exists_value_of_fraction rfl rfl hdrop htake.2 hshort
  split
  · exact exists_value_of_fraction rfl rfl (isNumeral_zeros_append hnumeral (-whole).toNat)
      (isNumeral_natDigits 0).2 (by norm_num)
  next h₁ h₂ h₃ =>
    have hneg : whole - 1 < 0 := by omega
    have hdown : 0 < Nat.ofDigitChars 10 (natDigits (whole - 1).natAbs) 0 := by
      rw [natDigits, Nat.ofDigitChars_ten_toDigits]
      omega
    rw [decide_eq_true hneg]
    split
    · next hone =>
      have hplaces := mantissa_of_none (l := ⟨negative, natDigits s.digits, none,
        some (true, natDigits (whole - 1).natAbs)⟩) hnumeral.2 (by dsimp only; omega) rfl
      exact exists_value_of_down rfl hdown hplaces.le
    · next hmany =>
      have htake := isNumeral_take hnumeral (n := 1) one_pos
      have hdrop := isNumeral_drop hnumeral (n := 1) (by omega)
      have hshort : ((natDigits s.digits).take 1).length ≤ 18 := by
        rw [List.length_take]
        omega
      exact exists_value_of_down rfl hdown (mantissa_neg htake.2 hshort rfl hdrop).le

end Literal

/-- A double of no great size comes back as a double, though perhaps not as the same. -/
theorem exists_reread_float {x : Float} (h : Within (-512) 512 x) :
    ∃ y, (float x).reread = .float y := by
  obtain ⟨p, hp, hlow, hhigh⟩ := h.exists_value
  obtain ⟨negative, significand, exponent, hdecode, habs⟩ := Decimal.exists_decode hp
  have hsmall : |p| ≤ 16 := by
    norm_num at hlow hhigh
    exact abs_le.mpr ⟨hlow, hhigh⟩
  rw [reread, doubleLiteral?, hdecode]
  dsimp only
  rw [Option.map_some, Option.getD_some]
  split
  · exact Literal.exists_value_of_fraction rfl rfl (isNumeral_natDigits 0)
      (isNumeral_natDigits 0).2 (by norm_num)
  · next hne =>
    refine Literal.exists_value_ofScaled negative
      (Literal.whole_le (Decimal.hasLead_shortest significand exponent) ?_)
    calc (Decimal.shortest significand exponent).value
        ≤ 2 * (significand * 2 ^ exponent) := Decimal.value_shortest_le hne exponent
      _ ≤ 32 := by rw [← habs]; linarith
      _ < 10 ^ (16 : ℤ) := by norm_num

end Json

end LessonDeck
