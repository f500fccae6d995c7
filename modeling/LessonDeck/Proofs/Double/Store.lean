import LessonDeck.Proofs.Double.Round
/-!
# How doubles are stored

What is stored in 64 bits is taken out again as it was, if its mantissa has as many bits as there is
room for and its exponent fits.  A number with a greater exponent is stored as an infinity.
-/

open Float.Model (Format UnpackedFloat totalExponent)
open Float.Model.UnpackedFloat

namespace LessonDeck.Double

/-- The form of what is stored, but for a greatest exponent. -/
def Canonical : UnpackedFloat → Prop
  | .finite _ mantissa e _ => mantissa < 2 ^ 53 ∧ Leads mantissa e ∧ -1074 ≤ e
  | _ => True

/-- The form of what is stored. -/
def Storable : UnpackedFloat → Prop
  | .finite _ mantissa e _ => mantissa < 2 ^ 53 ∧ Leads mantissa e ∧ -1074 ≤ e ∧ e ≤ 971
  | _ => True

theorem RoundsTo.canonical {u : UnpackedFloat} {s : Sign} {r : ℝ} {mantissa : ℕ} {e : ℤ}
    (h : RoundsTo u s r mantissa e) : Canonical u := by
  rw [h.parts, ofParts]
  split
  · trivial
  · exact ⟨h.lt, h.leads, h.min⟩

/-! ## Taking apart -/

theorem toNat_append_one {n : ℕ} (b : BitVec n) : (1#1 ++ b).toNat = 2 ^ n + b.toNat := by
  rw [BitVec.toNat_append, ← Nat.shiftLeft_add_eq_or_of_lt b.isLt]
  simp [Nat.shiftLeft_eq]

theorem storable_unpack (b : BitVec format.numBits) : Storable (unpack format b) := by
  have hmantissa : (@unpackMantissa format b).toNat < 2 ^ 52 := BitVec.isLt _
  have hexponent : (@unpackExponent format b).toNat < 2 ^ 11 := BitVec.isLt _
  rw [unpack]
  dsimp only [format, Format.exponentBias] at *
  split
  · split <;> trivial
  · next hinf =>
    split
    · next hzero =>
      split
      · trivial
      · rw [hzero]
        exact ⟨hmantissa.trans (by norm_num), .inr (by norm_num), by norm_num, by norm_num⟩
    · next hpos =>
      have hne : (@unpackExponent format b).toNat ≠ 0 :=
        fun h ↦ hpos (BitVec.eq_of_toNat_eq h)
      have hmax : (@unpackExponent format b).toNat ≠ 2 ^ 11 - 1 :=
        fun h ↦ hinf (BitVec.eq_of_toNat_eq h)
      have hone : (1#1 ++ @unpackMantissa format b).toNat =
          2 ^ 52 + (@unpackMantissa format b).toNat := toNat_append_one _
      refine ⟨?_, .inl ?_, ?_, ?_⟩
      · rw [hone]
        omega
      · rw [hone]
        exact Nat.le_add_right _ _
      · push_cast
        omega
      · push_cast
        omega

/-! ## Putting together -/

theorem unpackSign_packComponents {spec : Format} (s : Sign) (e : BitVec spec.exponentBits)
    (m : BitVec spec.mantissaBitsWithoutImplicit) :
    unpackSign (packComponents spec s e m) = s.toBitVec := by
  refine BitVec.eq_of_getLsbD_eq fun i hi ↦ ?_
  have hzero : i = 0 := by omega
  subst hzero
  simp [unpackSign, packComponents, BitVec.getLsbD_append, BitVec.getElem_append]

theorem ofBitVec_toBitVec (s : Sign) : Sign.ofBitVec s.toBitVec = s := by
  cases s <;> rfl

/-- What a number is after it was stored. -/
def stored (u : UnpackedFloat) : UnpackedFloat :=
  (Float.Model.pack u).unpack

theorem stored_notANumber : stored .notANumber = .notANumber :=
  rfl

theorem stored_infinity (s : Sign) : stored (.infinity s) = .infinity s := by
  cases s <;> rfl

theorem stored_zero (s : Sign) : stored (.zero s) = .zero s := by
  cases s <;> rfl

/-- The exponent field of a number that is not too great. -/
def biased (e : ℤ) : ℕ :=
  (e + format.exponentBias + format.mantissaBitsWithoutImplicit).toNat

theorem biased_eq {e : ℤ} (hmin : -1074 ≤ e) : (biased e : ℤ) = e + 1075 := by
  change ((e + (1023 : ℕ) + (52 : ℕ)).toNat : ℤ) = _
  omega

theorem stored_of_lt {s : Sign} {mantissa : ℕ} {e : ℤ} {h : 0 < mantissa} (he : 971 < e) :
    stored (.finite s mantissa e h) = .infinity s := by
  have hbiased := biased_eq (e := e) (by omega)
  have hgreat : 2 ^ 11 ≤ biased e + 1 := by omega
  have hpack : pack format (.finite s mantissa e h) = packedInfinity format s := if_pos hgreat
  change unpack format (pack format (.finite s mantissa e h)) = _
  rw [hpack]
  exact stored_infinity s

theorem unpack_normal {spec : Format} (s : Sign) {x : BitVec spec.exponentBits} (hinf : x ≠ -1#_)
    (hzero : x ≠ 0#_) (m : BitVec spec.mantissaBitsWithoutImplicit) :
    unpack spec (packComponents spec s x m) = .finite s (1#1 ++ m).toNat
      (x.toNat - (spec.exponentBias + spec.mantissaBitsWithoutImplicit))
      (by rw [toNat_append_one]; positivity) := by
  rw [unpack]
  simp only [unpackExponent_packComponents, unpackMantissa_packComponents,
    unpackSign_packComponents, ofBitVec_toBitVec, if_neg hinf, if_neg hzero]

theorem unpack_subnormal {spec : Format} (s : Sign) (hinf : (0#_ : BitVec spec.exponentBits) ≠ -1#_)
    {m : BitVec spec.mantissaBitsWithoutImplicit} (h : m ≠ 0#_) :
    unpack spec (packComponents spec s 0#_ m) = .finite s m.toNat
      (1 - (spec.exponentBias + spec.mantissaBitsWithoutImplicit))
      (by simpa [BitVec.toNat_pos, BitVec.pos_iff_ne_zero] using h) := by
  rw [unpack]
  simp only [unpackExponent_packComponents, unpackMantissa_packComponents,
    unpackSign_packComponents, ofBitVec_toBitVec, if_neg hinf, if_true, dif_neg h]
  congr 1
  rw [BitVec.toNat_zero, Nat.cast_zero]
  ring

/-- A number with all leading bits is stored with its exponent and without its first bit. -/
theorem stored_normal (s : Sign) {mantissa : ℕ} {e : ℤ} (h : 0 < mantissa)
    (hlow : 2 ^ 52 ≤ mantissa) (hlt : mantissa < 2 ^ 53) (hmin : -1074 ≤ e) (he : e ≤ 971) :
    stored (.finite s mantissa e h) = .finite s mantissa e h := by
  have hbiased := biased_eq hmin
  have hfits : ¬ 2 ^ 11 ≤ biased e + 1 := by omega
  have hlog : mantissa.log2 + 1 = 53 := by
    rw [(Nat.log2_eq_iff h.ne').mpr ⟨hlow, hlt⟩]
  have hpack : pack format (.finite s mantissa e h) = packComponents format s
      (BitVec.ofNat _ (biased e)) (BitVec.ofNat _ mantissa) := by
    rw [pack]
    exact (if_neg hfits).trans (if_pos hlog)
  have hfield : (BitVec.ofNat format.exponentBits (biased e)).toNat = biased e := by
    rw [BitVec.toNat_ofNat]
    change biased e % 2 ^ 11 = biased e
    omega
  have hinf : BitVec.ofNat format.exponentBits (biased e) ≠ -1#_ := by
    intro hall
    rw [hall] at hfield
    change 2047 = biased e at hfield
    omega
  have hzero : BitVec.ofNat format.exponentBits (biased e) ≠ 0#_ := by
    intro hnone
    rw [hnone] at hfield
    change 0 = biased e at hfield
    omega
  have hmantissa :
      (1#1 ++ BitVec.ofNat format.mantissaBitsWithoutImplicit mantissa).toNat = mantissa := by
    rw [toNat_append_one, BitVec.toNat_ofNat]
    change 2 ^ 52 + mantissa % 2 ^ 52 = mantissa
    omega
  have hexponent : ((BitVec.ofNat format.exponentBits (biased e)).toNat : ℤ) -
      (format.exponentBias + format.mantissaBitsWithoutImplicit) = e := by
    rw [hfield, hbiased]
    change e + 1075 - 1075 = e
    omega
  change unpack format (pack format (.finite s mantissa e h)) = _
  rw [hpack, unpack_normal s hinf hzero]
  simp only [hmantissa, hexponent]

/-- A number without all leading bits is stored with the exponent field zero. -/
theorem stored_subnormal (s : Sign) {mantissa : ℕ} (h : 0 < mantissa) (hlt : mantissa < 2 ^ 52) :
    stored (.finite s mantissa (-1074) h) = .finite s mantissa (-1074) h := by
  have hfits : ¬ 2 ^ 11 ≤ biased (-1074) + 1 := by decide
  have hlog : mantissa.log2 + 1 ≠ 53 := by
    have hless := (Nat.log2_lt h.ne').mpr hlt
    omega
  have hpack : pack format (.finite s mantissa (-1074) h) =
      packComponents format s 0#_ (BitVec.ofNat _ mantissa) := by
    rw [pack]
    exact (if_neg hfits).trans (if_neg hlog)
  have hmantissa :
      (BitVec.ofNat format.mantissaBitsWithoutImplicit mantissa).toNat = mantissa := by
    rw [BitVec.toNat_ofNat]
    exact Nat.mod_eq_of_lt hlt
  have hne : BitVec.ofNat format.mantissaBitsWithoutImplicit mantissa ≠ 0#_ := by
    intro hzero
    rw [hzero] at hmantissa
    exact h.ne hmantissa
  change unpack format (pack format (.finite s mantissa (-1074) h)) = _
  rw [hpack, unpack_subnormal s (by decide) hne]
  simp only [hmantissa]
  rfl

theorem stored_of_le {s : Sign} {mantissa : ℕ} {e : ℤ} {h : 0 < mantissa}
    (hc : Canonical (.finite s mantissa e h)) (he : e ≤ 971) :
    stored (.finite s mantissa e h) = .finite s mantissa e h := by
  obtain ⟨hlt, hlead, hmin⟩ := hc
  obtain hnormal | hsmall := le_or_gt (2 ^ 52) mantissa
  · exact stored_normal s h hnormal hlt hmin he
  · obtain rfl : e = -1074 := hlead.resolve_left (by omega)
    exact stored_subnormal s h hsmall

theorem Storable.stored_eq {u : UnpackedFloat} (h : Storable u) : stored u = u := by
  cases u with
  | notANumber => exact stored_notANumber
  | infinity s => exact stored_infinity s
  | zero s => exact stored_zero s
  | finite s mantissa e hpos => exact stored_of_le ⟨h.1, h.2.1, h.2.2.1⟩ h.2.2.2

theorem Storable.canonical {u : UnpackedFloat} (h : Storable u) : Canonical u := by
  cases u with
  | finite s mantissa e hpos => exact ⟨h.1, h.2.1, h.2.2.1⟩
  | _ => trivial

theorem Storable.neg {u : UnpackedFloat} (h : Storable u) : Storable u.neg := by
  cases u <;> exact h

end LessonDeck.Double
