import LessonDeck.Proofs.Double.Bounds
import LessonDeck.Proofs.Result
import LessonDeck.Proofs.Wheel.Support
import LessonDeck.Wheel.Adaptive
/-!
# The probabilities of the adaptive wheel are finite

Whatever the weights are, infinite ones and such that are not numbers included, a distribution over
all colors consists of finite doubles.  While entries are pinned to a bound they lie between zero and
one.  The last round gives shares that pass no bound: either one of them is not a number, and then
nothing is given to any color, or none is negative, so that the mass covers each, or the mass that was
pinned before exceeds the unit, so that there remains enough of it.
-/

namespace LessonDeck

open Scalar Double

/-! ## Sums -/

namespace Double

theorem value_scalarZero : value (Zero.zero : Float) = some ((0 : ℝ) : EReal) :=
  rfl

theorem within_zero : Within 0 0 (Zero.zero : Float) := by
  constructor
  · exact (atLeast_of_value value_scalarZero).mono (by norm_num)
  · exact (atMost_of_value value_scalarZero).mono (by norm_num)

theorem atLeast_zero_zero : AtLeast 0 (Zero.zero : Float) :=
  within_zero.atLeast.mono (by norm_num)

variable {f : Color → Float}

/-- Bounds of all terms add up to bounds of the sum. -/
theorem within_foldl {low high : Color → ℤ} (hlow : ∀ c, |low c| ≤ 64) (hhigh : ∀ c, |high c| ≤ 64) :
    ∀ (cs : List Color) {acc : Float} {a b : ℤ}, Within a b acc →
      |a| + 64 * cs.length < 2 ^ 53 → |b| + 64 * cs.length < 2 ^ 53 →
      (∀ c ∈ cs, Within (low c) (high c) (f c)) →
      Within (a + (cs.map low).sum) (b + (cs.map high).sum) (cs.foldl (fun acc c ↦ acc + f c) acc)
  | [], _, _, _, hacc, _, _, _ => by simpa using hacc
  | c :: cs, acc, a, b, hacc, ha, hb, h => by
      have hlow' := abs_le.mp (hlow c)
      have hhigh' := abs_le.mp (hhigh c)
      rw [List.length_cons] at ha hb
      push_cast at ha hb
      have ha' : |a + low c| ≤ |a| + 64 := (abs_add_le _ _).trans (by have := hlow c; omega)
      have hb' : |b + high c| ≤ |b| + 64 := (abs_add_le _ _).trans (by have := hhigh c; omega)
      have hstep := hacc.add (h c List.mem_cons_self) (by omega) (by omega)
      have hrest := within_foldl hlow hhigh cs hstep (by omega) (by omega)
        fun d hd ↦ h d (List.mem_cons_of_mem c hd)
      rw [List.map_cons, List.map_cons, List.sum_cons, List.sum_cons, ← add_assoc, ← add_assoc]
      exact hrest

theorem within_sumOf {low high : Color → ℤ} {cs : List Color} (hlow : ∀ c, |low c| ≤ 64)
    (hhigh : ∀ c, |high c| ≤ 64) (hcs : cs.length ≤ 4)
    (h : ∀ c ∈ cs, Within (low c) (high c) (f c)) :
    Within (cs.map low).sum (cs.map high).sum (sumOf f cs) := by
  have hsum := within_foldl hlow hhigh cs within_zero (by rw [abs_zero]; omega)
    (by rw [abs_zero]; omega) h
  rwa [zero_add, zero_add] at hsum

theorem atLeast_foldl {v : ℝ} (hv : Representable v) :
    ∀ (cs : List Color) {acc : Float}, AtLeast v acc → (∀ c ∈ cs, AtLeast 0 (f c)) →
      AtLeast v (cs.foldl (fun acc c ↦ acc + f c) acc)
  | [], _, hacc, _ => hacc
  | c :: cs, _, hacc, h =>
      atLeast_foldl hv cs (hacc.add (h c List.mem_cons_self) hv (add_zero v).ge)
        fun d hd ↦ h d (List.mem_cons_of_mem c hd)

/-- A sum of terms that are not negative covers each of them. -/
theorem atLeast_sumOf {cs : List Color} {c : Color} {v : ℝ} (hv : Representable v)
    (hc : c ∈ cs) (hcv : AtLeast v (f c)) (h : ∀ d ∈ cs, AtLeast 0 (f d)) :
    AtLeast v (sumOf f cs) := by
  have hfold : ∀ (ds : List Color) {acc : Float}, AtLeast 0 acc → c ∈ ds →
      (∀ d ∈ ds, AtLeast 0 (f d)) → AtLeast v (ds.foldl (fun acc d ↦ acc + f d) acc) := by
    intro ds
    induction ds with
    | nil => exact fun _ hmem _ ↦ (List.not_mem_nil hmem).elim
    | cons d ds ih =>
        intro acc hacc hmem hds
        have hrest : ∀ e ∈ ds, AtLeast 0 (f e) := fun e he ↦ hds e (List.mem_cons_of_mem d he)
        obtain rfl | hmem := List.mem_cons.mp hmem
        · exact atLeast_foldl hv ds (hacc.add hcv hv (zero_add v).ge) hrest
        · exact ih (hacc.add (hds d List.mem_cons_self) representable_zero (add_zero 0).ge) hmem hrest
  exact hfold cs atLeast_zero_zero hc h

/-- A sum with a term that is not a number is not a number. -/
theorem value_sumOf_of_none {cs : List Color} {c : Color} (hc : c ∈ cs) (h : value (f c) = none) :
    value (sumOf f cs) = none := by
  have hstays : ∀ (ds : List Color) {acc : Float}, value acc = none →
      value (ds.foldl (fun acc d ↦ acc + f d) acc) = none := by
    intro ds
    induction ds with
    | nil => exact fun hacc ↦ hacc
    | cons d ds ih => exact fun hacc ↦ ih (value_add_of_none (.inl hacc))
  have hfold : ∀ (ds : List Color) {acc : Float}, c ∈ ds →
      value (ds.foldl (fun acc d ↦ acc + f d) acc) = none := by
    intro ds
    induction ds with
    | nil => exact fun hmem ↦ (List.not_mem_nil hmem).elim
    | cons d ds ih =>
        intro acc hmem
        obtain rfl | hmem := List.mem_cons.mp hmem
        · exact hstays ds (value_add_of_none (.inr h))
        · exact ih hmem
  exact hfold cs hc

end Double

/-! ## Constants -/

theorem within_one : Within 32 32 (One.one : Float) := by
  have hone : value (One.one : Float) = some ((((2 ^ 52 : ℕ) : ℝ) * 2 ^ (-52 : ℤ) : ℝ) : EReal) := rfl
  constructor
  · exact (atLeast_of_value hone).mono (by norm_num)
  · exact (atMost_of_value hone).mono (by norm_num)

theorem within_epsilon : Within 0 1 (epsilon : Float) := by
  have heps : value (epsilon : Float) =
      some ((((4951760157141521 : ℕ) : ℝ) * 2 ^ (-92 : ℤ) : ℝ) : EReal) := rfl
  constructor
  · exact (atLeast_of_value heps).mono (by norm_num)
  · exact (atMost_of_value heps).mono (by norm_num)

theorem atLeast_one {x : Float} {m : ℕ} {e : ℤ} (hm : 0 < m)
    (h : x.toModel.unpack = .finite .positive m e hm) (hle : (1 : ℝ) ≤ m * 2 ^ e) : AtLeast 1 x :=
  (atLeast_of_value (value_eq_of_unpack h)).mono hle

theorem atLeast_natCast {n : ℕ} (hpos : 0 < n) (hn : n ≤ 4) : AtLeast 1 (n : Float) := by
  interval_cases n
  · exact atLeast_one (m := 2 ^ 52) (e := -52) (by decide) rfl (by norm_num)
  · exact atLeast_one (m := 2 ^ 52) (e := -51) (by decide) rfl (by norm_num)
  · exact atLeast_one (m := 3 * 2 ^ 51) (e := -51) (by decide) rfl (by norm_num)
  · exact atLeast_one (m := 2 ^ 52) (e := -50) (by decide) rfl (by norm_num)

/-- The share of each color when all are equally likely. -/
theorem within_even : Within 8 8 ((One.one : Float) / ((Color.all.length : ℕ) : Float)) := by
  have heven : value ((One.one : Float) / ((Color.all.length : ℕ) : Float)) =
      some ((((2 ^ 52 : ℕ) : ℝ) * 2 ^ (-54 : ℤ) : ℝ) : EReal) := rfl
  constructor
  · exact (atLeast_of_value heven).mono (by norm_num)
  · exact (atMost_of_value heven).mono (by norm_num)

namespace Wheel

variable {weights : ByColor Float} {b : Bounds Float}

/-! ## Bounds -/

/-- Bounds between zero and one. -/
structure UnitBounds (b : Bounds Float) : Prop where
  low : Within 0 32 b.low
  high : Within 0 32 b.high

theorem unitBounds_of_checkBounds (h : checkBounds b = .ok ()) : UnitBounds b := by
  rw [checkBounds] at h
  split at h
  · next hsound =>
    obtain ⟨-, -, hzero, horder, hone, -⟩ := hsound
    have hlow : AtLeast 0 b.low := atLeast_zero_zero.of_le hzero
    have hhigh : AtMost 1 b.high := (within_one.atMost.of_le hone).mono (by norm_num)
    constructor
    · exact ⟨hlow.mono (by norm_num), (hhigh.of_le horder).mono (by norm_num)⟩
    · exact ⟨(hlow.of_le horder).mono (by norm_num), hhigh.mono (by norm_num)⟩
  · exact nomatch h

theorem UnitBounds.widened (h : UnitBounds b) : UnitBounds (b.widened Color.all.length) := by
  have heven : Within 0 32 ((One.one : Float) / ((Color.all.length : ℕ) : Float)) :=
    within_even.mono (by norm_num) (by norm_num)
  constructor
  · change Within 0 32 (lesser b.low _)
    rw [lesser]
    split
    · exact h.low
    · exact heven
  · change Within 0 32 (greater b.high _)
    rw [greater]
    split
    · exact h.high
    · exact heven

theorem lt_of_lt_sub_epsilon {x y : Float} {m n : ℤ} (hx : Within m n x) (h : y < x - epsilon) :
    y < x := by
  obtain ⟨p, hp, -⟩ := hx.exists_value
  obtain ⟨q, hq, hqpos, -⟩ := within_epsilon.exists_value
  have hqpos' : 0 ≤ q := by simpa using hqpos
  have hle := (faithful_sub hp hq).atMost p (representable_of_value hp) (sub_le_self p hqpos')
  obtain ⟨a, e, ha, he, hae⟩ := lt_iff.mp h
  obtain ⟨v, hv, hvp⟩ := hle
  obtain rfl := Option.some.inj (hv.symm.trans he)
  exact lt_iff.mpr ⟨a, p, ha, hp, hae.trans_le hvp⟩

theorem lt_of_add_epsilon_lt {x y : Float} {m n : ℤ} (hx : Within m n x) (h : x + epsilon < y) :
    x < y := by
  obtain ⟨p, hp, -⟩ := hx.exists_value
  obtain ⟨q, hq, hqpos, -⟩ := within_epsilon.exists_value
  have hqpos' : 0 ≤ q := by simpa using hqpos
  have hle := (faithful_add hp hq).atLeast p (representable_of_value hp)
    (le_add_of_nonneg_right hqpos')
  obtain ⟨e, a, he, ha, hea⟩ := lt_iff.mp h
  obtain ⟨v, hv, hpv⟩ := hle
  obtain rfl := Option.some.inj (hv.symm.trans he)
  exact lt_iff.mpr ⟨p, a, hp, ha, hpv.trans_lt hea⟩

/-! ## Shares -/

theorem weight_nonneg (weights : ByColor Float) (c : Color) : AtLeast 0 (weight weights c) := by
  rw [weight, positivePart]
  split
  · next h => exact atLeast_zero_zero.of_le (Double.le_of_lt h)
  · exact atLeast_zero_zero

/-- If every term is positive, then so is a sum with some term. -/
theorem eq_nil_of_sumOf {f : Color → Float} {cs : List Color} (hf : ∀ c ∈ cs, AtLeast tiny (f c))
    (h : ¬ Zero.zero < sumOf f cs) : cs = [] := by
  cases cs with
  | nil => rfl
  | cons c cs =>
      refine absurd (lt_of_atLeast_tiny (x := Zero.zero) ?_ ?_) h
      · exact within_zero.atMost.mono (by norm_num)
      · exact atLeast_sumOf representable_tiny List.mem_cons_self (hf c List.mem_cons_self)
          fun d hd ↦ (hf d hd).mono tiny_pos.le

variable {share : Color → Float} {free : List Color}

/-- Shares that call for no further round keep to the bounds as far as they are numbers. -/
theorem share_within (hb : UnitBounds b)
    (hlow : ¬ Zero.zero < sumOf (fun c ↦ b.low - share c)
      (free.filter fun c ↦ share c < b.low - epsilon))
    (hhigh : ¬ Zero.zero < sumOf (fun c ↦ share c - b.high)
      (free.filter fun c ↦ b.high + epsilon < share c)) {c : Color} (hc : c ∈ free) :
    value (share c) = none ∨ Within (-1) 33 (share c) := by
  have hnotLow : ¬ share c < b.low - epsilon := by
    have hnil := eq_nil_of_sumOf (fun d hd ↦ atLeast_sub_of_lt
      (lt_of_lt_sub_epsilon hb.low (of_decide_eq_true (List.mem_filter.mp hd).2))) hlow
    intro h
    exact List.filter_eq_nil_iff.mp hnil c hc (decide_eq_true h)
  have hnotHigh : ¬ b.high + epsilon < share c := by
    have hnil := eq_nil_of_sumOf (fun d hd ↦ atLeast_sub_of_lt
      (lt_of_add_epsilon_lt hb.high (of_decide_eq_true (List.mem_filter.mp hd).2))) hhigh
    intro h
    exact List.filter_eq_nil_iff.mp hnil c hc (decide_eq_true h)
  have hbelow : Within (0 - 1) (32 - 0) (b.low - epsilon) :=
    hb.low.sub within_epsilon (by norm_num) (by norm_num)
  have habove : Within (0 + 0) (32 + 1) (b.high + epsilon) :=
    hb.high.add within_epsilon (by norm_num) (by norm_num)
  obtain hnone | hleast := none_or_atLeast hnotLow hbelow.atLeast
  · exact .inl hnone
  · exact (none_or_atMost hnotHigh habove.atMost).imp_right fun hmost ↦ ⟨hleast, hmost⟩

namespace Sharing

variable {s : Sharing Float}

/-- Every pinned entry lies between zero and one. -/
def InUnit (s : Sharing Float) : Prop :=
  ∀ c v, s.pinned.get c = some v → Within 0 32 v

theorem mem_pinned {c : Color} {v : Float} (h : s.pinned.get c = some v) :
    c ∈ Color.all.filter fun c ↦ (s.pinned.get c).isSome :=
  List.mem_filter.mpr ⟨mem_all c, by rw [h]; rfl⟩

theorem exists_pinned {c : Color}
    (h : c ∈ Color.all.filter fun c ↦ (s.pinned.get c).isSome) : ∃ v, s.pinned.get c = some v :=
  Option.isSome_iff_exists.mp (List.mem_filter.mp h).2

theorem mass_within (low high : Color → ℤ) (hlow : ∀ c, |low c| ≤ 64) (hhigh : ∀ c, |high c| ≤ 64)
    (h : ∀ c v, s.pinned.get c = some v → Within (low c) (high c) v) :
    Within ((Color.all.filter fun c ↦ (s.pinned.get c).isSome).map low).sum
      ((Color.all.filter fun c ↦ (s.pinned.get c).isSome).map high).sum s.mass := by
  refine within_sumOf hlow hhigh (List.length_filter_le _ _) fun c hc ↦ ?_
  obtain ⟨v, hv⟩ := exists_pinned hc
  rw [hv]
  exact h c v hv

theorem sum_map_const (p : Color → Bool) (n : ℤ) :
    ((Color.all.filter p).map fun _ ↦ n).sum = (Color.all.filter p).length * n := by
  rw [List.map_const', List.sum_replicate, nsmul_eq_mul]

theorem mass_within_of_forall {m n : ℤ} (hm : m ≤ 0) (hm' : -64 ≤ m) (hn : 0 ≤ n) (hn' : n ≤ 64)
    (h : ∀ c v, s.pinned.get c = some v → Within m n v) : Within (4 * m) (4 * n) s.mass := by
  have hmass := mass_within (fun _ ↦ m) (fun _ ↦ n)
    (fun _ ↦ abs_le.mpr ⟨hm', by omega⟩) (fun _ ↦ abs_le.mpr ⟨by omega, hn'⟩) h
  have hlength : ((Color.all.filter fun c ↦ (s.pinned.get c).isSome).length : ℤ) ≤ 4 := by
    exact_mod_cast List.length_filter_le _ Color.all
  rw [sum_map_const, sum_map_const] at hmass
  exact hmass.mono (by nlinarith) (by nlinarith)

/-- While no more than the unit is pinned, no share is negative. -/
theorem proposal_nonneg (weights : ByColor Float) (hmass : AtMost 1 s.mass) {free : List Color}
    (hpos : 0 < free.length) (hlength : free.length ≤ 4) (c : Color) :
    value (s.proposal weights free c) = none ∨ AtLeast 0 (s.proposal weights free c) := by
  have hremaining : AtLeast 0 ((One.one : Float) - s.mass) := by
    have hone := within_one.atLeast
    exact hone.sub hmass representable_zero (by norm_num)
  rw [proposal]
  split
  · next htotal =>
    obtain hnone | hproduct := hremaining.mul (weight_nonneg weights c)
    · exact .inl (value_div_of_none hnone)
    · exact hproduct.div (atLeast_tiny_of_lt atLeast_zero_zero htotal) tiny_pos
  · exact hremaining.div (atLeast_natCast hpos hlength) one_pos

/-- How the last round leaves the pinned entries: one is not a number, or none is negative, or there
is one that outweighs the others even if they are. -/
inductive Sound (s : Sharing Float) : Prop where
  | spoiled {c : Color} {v : Float} (hc : s.pinned.get c = some v) (hv : value v = none)
  | nonneg (h : ∀ c v, s.pinned.get c = some v → Within 0 64 v)
  | heavy (h : ∀ c v, s.pinned.get c = some v → Within (-1) 64 v) {c : Color} {v : Float}
      (hc : s.pinned.get c = some v) (hv : Within 8 64 v)

theorem InUnit.pin (hs : s.InUnit) {x : Float} (hx : Within 0 32 x) (cs : List Color) (n : ℕ) :
    InUnit ⟨s.pin cs fun _ ↦ x, n⟩ := by
  intro c v hv
  rw [get_pin] at hv
  split at hv
  · rwa [← Option.some.inj hv]
  · exact hs c v hv

/-- If more than the unit is pinned, then one entry has more than a quarter of it. -/
theorem exists_heavy (hs : s.InUnit) {m : ℝ} (hm : value s.mass = some (m : EReal)) (hgt : 1 < m) :
    ∃ c v, s.pinned.get c = some v ∧ Within 8 64 v := by
  by_contra hlight
  push Not at hlight
  have hsmall : ∀ c v, s.pinned.get c = some v → Within 0 8 v := by
    intro c v hv
    obtain ⟨p, hp, hlow, hhigh⟩ := (hs c v hv).exists_value
    refine ⟨(hs c v hv).atLeast, (atMost_of_value hp).mono (le_of_not_gt fun hlt ↦ ?_)⟩
    exact hlight c v hv ⟨(atLeast_of_value hp).mono hlt.le, (hs c v hv).atMost.mono (by norm_num)⟩
  have hmass := mass_within_of_forall le_rfl (by norm_num) (by norm_num) (by norm_num) hsmall
  obtain ⟨w, hw, -, hwle⟩ := hmass.exists_value
  have hmw : m = w := EReal.coe_injective (Option.some.inj (hm.symm.trans hw))
  norm_num at hwle
  linarith

theorem sound_pin (hs : s.InUnit) {free : List Color} (hpos : 0 < free.length)
    (hlength : free.length ≤ 4) (hfree : ∀ c ∈ free, s.pinned.get c = none)
    (hshare : ∀ c ∈ free, value (s.proposal weights free c) = none ∨
      Within (-1) 33 (s.proposal weights free c)) :
    Sound { s with pinned := s.pin free (s.proposal weights free) } := by
  by_cases hspoiled : ∃ c ∈ free, value (s.proposal weights free c) = none
  · obtain ⟨c, hc, hnone⟩ := hspoiled
    refine .spoiled (c := c) ?_ hnone
    rw [get_pin, if_pos hc]
  push Not at hspoiled
  have hpinned : ∀ c v, (s.pin free (s.proposal weights free)).get c = some v →
      Within (-1) 64 v := by
    intro c v hv
    rw [get_pin] at hv
    split at hv
    · next hc =>
      rw [← Option.some.inj hv]
      exact ((hshare c hc).resolve_left (hspoiled c hc)).mono le_rfl (by norm_num)
    · exact (hs c v hv).mono (by norm_num) (by norm_num)
  obtain ⟨m, hm, -⟩ := (mass_within_of_forall le_rfl (by norm_num) (by norm_num) (by norm_num)
    hs).exists_value
  obtain hle | hgt := le_or_gt m 1
  · refine .nonneg fun c v hv ↦ ⟨?_, (hpinned c v hv).atMost⟩
    rw [get_pin] at hv
    split at hv
    · next hc =>
      have hnonneg := proposal_nonneg weights ((atMost_of_value hm).mono hle)
        hpos hlength c
      rw [← Option.some.inj hv]
      exact (hnonneg.resolve_left (hspoiled c hc)).mono (by norm_num)
    · exact (hs c v hv).atLeast
  · obtain ⟨c, v, hc, hv⟩ := exists_heavy hs hm hgt
    refine .heavy hpinned (c := c) ?_ hv
    rw [get_pin, if_neg fun hmem ↦ ?_]
    · exact hc
    · exact nomatch (hfree c hmem).symm.trans hc

theorem sound_settle (weights : ByColor Float) (hb : UnitBounds b) :
    ∀ (rounds : ℕ) {free : List Color} {s : Sharing Float}, s.InUnit → free.length ≤ 4 →
      (∀ c ∈ free, s.pinned.get c = none) → Sound (settle weights b rounds free s)
  | 0, _, _, hs, _, _ => .nonneg fun c v hv ↦ (hs c v hv).mono le_rfl (by norm_num)
  | rounds + 1, free, s, hs, hlength, hfree => by
      have hdrop : ∀ (cs : List Color) (x : Float), ∀ c ∈ free.filter fun c ↦ c ∉ cs,
          (s.pin cs fun _ ↦ x).get c = none := by
        intro cs x c hc
        obtain ⟨hmem, hnot⟩ := List.mem_filter.mp hc
        rw [get_pin, if_neg (of_decide_eq_true hnot)]
        exact hfree c hmem
      have hshort : ∀ p : Color → Bool, (free.filter p).length ≤ 4 :=
        fun p ↦ (List.length_filter_le p free).trans hlength
      rw [settle]
      split
      · exact .nonneg fun c v hv ↦ (hs c v hv).mono le_rfl (by norm_num)
      · next hempty =>
        have hpos : 0 < free.length := List.length_pos_iff.mpr fun hnil ↦ hempty (by rw [hnil]; rfl)
        dsimp only
        split
        · next hlast =>
          exact sound_pin hs hpos hlength hfree fun c hc ↦ share_within hb hlast.1 hlast.2 hc
        · split
          · exact sound_settle weights hb rounds (hs.pin hb.low _ _) (hshort _) (hdrop _ _)
          · exact sound_settle weights hb rounds (hs.pin hb.high _ _) (hshort _) (hdrop _ _)

/-! ## What each color gets of the mass -/

theorem within_div {x y : Float} {p m : ℝ} (hx : value x = some (p : EReal))
    (hy : value y = some (m : EReal)) (hm : 0 < m) (hlow : -m ≤ p) (hhigh : p ≤ 16 * m) :
    Within (-32) 512 (x / y) := by
  have hfaithful := faithful_div hx hy hm.ne'
  constructor
  · refine hfaithful.atLeast _ (representable_thirtySeconds (by norm_num)) ?_
    rw [le_div_iff₀ hm]
    norm_num
    linarith
  · refine hfaithful.atMost _ (representable_thirtySeconds (by norm_num)) ?_
    rw [div_le_iff₀ hm]
    norm_num
    linarith

theorem within_getD {m n : ℤ} (hm : m ≤ 0) (hn : 0 ≤ n)
    (h : ∀ c v, s.pinned.get c = some v → Within m n v) (c : Color) :
    Within m n ((s.pinned.get c).getD (Zero.zero : Float)) := by
  cases hc : s.pinned.get c with
  | none => exact within_zero.mono hm hn
  | some v => exact h c v hc

theorem sum_heavy (p : Color → Bool) {c : Color} (hc : p c = true) :
    5 ≤ ((Color.all.filter p).map fun d ↦ if d = c then (8 : ℤ) else -1).sum := by
  cases hg : p .green <;> cases hr : p .red <;> cases hb : p .blue <;> cases hy : p .yellow <;>
    cases c <;> simp_all [Color.all]

/-- A mass of entries that are not negative covers what is given for each color. -/
theorem atLeast_mass (h : ∀ c v, s.pinned.get c = some v → Within 0 64 v)
    (hmass : AtLeast 0 s.mass) {c : Color} {p : ℝ}
    (hp : value ((s.pinned.get c).getD (Zero.zero : Float)) = some (p : EReal)) :
    AtLeast p s.mass := by
  cases hc : s.pinned.get c with
  | none =>
      rw [hc] at hp
      rwa [← EReal.coe_injective (Option.some.inj (value_scalarZero.symm.trans hp))]
  | some v =>
      rw [hc] at hp
      refine atLeast_sumOf (representable_of_value hp) (mem_pinned hc) ?_ fun d hd ↦ ?_
      · rw [hc]
        exact atLeast_of_value hp
      · obtain ⟨w, hw⟩ := exists_pinned hd
        rw [hw]
        exact (h d w hw).atLeast.mono (by norm_num)

/-- One heavy entry leaves a mass, whatever little the others take away from it. -/
theorem exists_mass_of_heavy (h : ∀ c v, s.pinned.get c = some v → Within (-1) 64 v) {d : Color}
    {v : Float} (hd : s.pinned.get d = some v) (hv : Within 8 64 v) :
    ∃ m : ℝ, value s.mass = some (m : EReal) ∧ 5 / 32 ≤ m := by
  have hterms : ∀ e w, s.pinned.get e = some w → Within (if e = d then 8 else -1) 64 w := by
    intro e w hw
    split
    · next heq =>
      rw [heq, hd] at hw
      rwa [← Option.some.inj hw]
    · exact h e w hw
  have hmass := mass_within _ _ (fun e ↦ by split <;> norm_num) (fun _ ↦ by norm_num) hterms
  obtain ⟨m, hm, hlow, -⟩ := hmass.exists_value
  have hsum := sum_heavy (fun e ↦ (s.pinned.get e).isSome) (c := d) (by rw [hd]; rfl)
  have hsum' : (5 : ℝ) ≤ (((Color.all.filter fun e ↦ (s.pinned.get e).isSome).map
      fun e ↦ if e = d then (8 : ℤ) else -1).sum : ℤ) := by exact_mod_cast hsum
  exact ⟨m, hm, by linarith⟩

theorem Sound.within (hs : s.Sound) (c : Color) :
    Within (-32) 512 (if Zero.zero < s.mass then
      (s.pinned.get c).getD (Zero.zero : Float) / s.mass else Zero.zero) := by
  split
  · next hpos =>
    have hmassPos : AtLeast tiny s.mass := atLeast_tiny_of_lt atLeast_zero_zero hpos
    cases hs with
    | spoiled hd hv =>
        have hnone : value s.mass = none := by
          refine value_sumOf_of_none (mem_pinned hd) ?_
          rw [hd]
          exact hv
        obtain ⟨a, m, -, hm, -⟩ := lt_iff.mp hpos
        exact nomatch hnone.symm.trans hm
    | nonneg h =>
        obtain ⟨m, hm, -⟩ := (mass_within_of_forall le_rfl (by norm_num) (by norm_num) le_rfl
          h).exists_value
        obtain ⟨p, hp, hp0, -⟩ := (within_getD le_rfl (by norm_num) h c).exists_value
        have hpm : p ≤ m := le_of_atLeast (atLeast_mass h (hmassPos.mono tiny_pos.le) hp) hm
        have hmpos : 0 < m := tiny_pos.trans_le (le_of_atLeast hmassPos hm)
        norm_num at hp0
        exact within_div hp hm hmpos (by linarith) (by linarith)
    | heavy h hd hv =>
        obtain ⟨m, hm, hlow⟩ := exists_mass_of_heavy h hd hv
        obtain ⟨p, hp, hplow, hphigh⟩ := (within_getD (by norm_num) (by norm_num) h c).exists_value
        norm_num at hplow hphigh
        exact within_div hp hm (by linarith) (by linarith) (by linarith)
  · exact within_zero.mono (by norm_num) (by norm_num)

end Sharing

/-- Whatever the weights are, a distribution over all colors consists of finite numbers. -/
theorem project_within (hb : UnitBounds b) (weights : ByColor Float) (c : Color) :
    Within (-32) 512 ((project weights b false).get c) := by
  have hall : active weights false = Color.all := List.filter_eq_self.mpr fun _ _ ↦ rfl
  have hstart : Sharing.InUnit (Sharing.start : Sharing Float) := by
    intro c v hv
    cases c <;> exact nomatch hv
  have hsound := Sharing.sound_settle weights hb.widened Color.all.length hstart
    (le_rfl : Color.all.length ≤ 4) fun c _ ↦ by cases c <;> rfl
  rw [project, hall]
  exact (ByColor.get_tabulate _ c).symm ▸ hsound.within c

end Wheel

/-- Every probability of an adaptive wheel with accepted settings is a finite double of no great
size. -/
theorem AdaptiveWheel.probabilities_within {w : AdaptiveWheel Float}
    (h : w.settings.check = .ok ()) (c : Color) : Within (-32) 512 (w.probabilities.get c) := by
  rw [AdaptiveSettings.check] at h
  obtain ⟨⟨⟩, hbounds, -⟩ := exists_of_bind_eq_ok h
  exact Wheel.project_within (Wheel.unitBounds_of_checkBounds hbounds) _ c

end LessonDeck
