import LessonDeck.Proofs.Wheel.Level
/-!
# Fair distributions

A distribution within bounds is fair to weights if no color could give to another one that has less
than its proportion: wherever one color is below the upper bound and another one above the lower
bound, the second has at most the proportion of its weight to the weight of the first.  Sharing ends
in a fair distribution.  Fairness says enough to compare distributions without looking at the rounds
that led to them: a fair distribution follows the order of the weights, and a color that loses
weight while the others gain does not become more likely.
-/

namespace LessonDeck

open Scalar

namespace Wheel

/-- A distribution among some colors that is fair to weights within bounds. -/
structure Fair (weights : ByColor ℚ) (b : Bounds ℚ) (colors : List Color) (p : Color → ℚ) :
    Prop where
  sum_eq_one : ∑ c, p c = 1
  eq_zero : ∀ c, c ∉ colors → p c = 0
  nonneg : ∀ c, 0 ≤ p c
  low_le : ∀ c ∈ colors, b.low - epsilon ≤ p c
  le_high : ∀ c ∈ colors, p c ≤ b.high + epsilon
  fair : ∀ a ∈ colors, ∀ c ∈ colors, p a < b.high → b.low < p c →
    p c * weight weights a ≤ p a * weight weights c
  even : ∀ a ∈ colors, ∀ c ∈ colors, weight weights a = weight weights c → p a = p c

namespace Sharing

variable {weights : ByColor ℚ} {b : Bounds ℚ} {colors free : List Color} {s : Sharing ℚ}
  {floor : ℚ} {roof : Option ℚ}

namespace Levelled

/-- What a color has when sharing is done: what was proposed for it in the last round, or what it
was pinned to before. -/
inductive Outcome (weights : ByColor ℚ) (b : Bounds ℚ) (free : List Color) (s : Sharing ℚ)
    (floor : ℚ) (roof : Option ℚ) (c : Color) : ℚ → Prop where
  | free (hc : c ∈ free) : Outcome weights b free s floor roof c (s.proposal weights free c)
  | pinned {x : ℚ} (h : PinnedAt weights b floor roof c x) : Outcome weights b free s floor roof c x

theorem share_pin (s : Sharing ℚ) (free : List Color) (f : Color → ℚ) (c : Color) :
    ({ s with pinned := s.pin free f } : Sharing ℚ).share c =
      if c ∈ free then f c else s.share c := by
  rw [share, share, get_pin]
  split <;> rfl

theorem outcome (h : Levelled weights b colors free s floor roof) {c : Color} (hc : c ∈ colors) :
    Outcome weights b free s floor roof c
      (({ s with pinned := s.pin free (s.proposal weights free) } : Sharing ℚ).share c) := by
  rw [share_pin]
  by_cases hfree : c ∈ free
  · rw [if_pos hfree]
    exact .free hfree
  · rw [if_neg hfree]
    obtain ⟨x, hx, hpinned⟩ := h.get_pinned c hc hfree
    rw [share, hx, Option.getD_some]
    exact .pinned hpinned

theorem share_of_notMem (h : Levelled weights b colors free s floor roof) {c : Color}
    (hc : c ∉ colors) :
    ({ s with pinned := s.pin free (s.proposal weights free) } : Sharing ℚ).share c = 0 := by
  rw [share_pin, if_neg fun hfree ↦ hc (h.subset hfree), share, h.get_eq_none c (.inr hc)]
  rfl

theorem outcome_mem_range (h : Levelled weights b colors free s floor roof) (hlow : 0 ≤ b.low)
    (hle : b.low ≤ b.high) (hnoneLow : s.tooLow weights b free = [])
    (hnoneHigh : s.tooHigh weights b free = []) {c : Color} {x : ℚ}
    (hx : Outcome weights b free s floor roof c x) :
    0 ≤ x ∧ b.low - epsilon ≤ x ∧ x ≤ b.high + epsilon := by
  have hepsilon := epsilon_pos
  cases hx with
  | free hc =>
      have hw : 0 ≤ weight weights c := positivePart_nonneg _
      exact ⟨(mul_nonneg h.floor_nonneg hw).trans (h.floor_mul_le_proposal hc),
        low_le_proposal hnoneLow hc, proposal_le_high hnoneHigh hc⟩
  | pinned hx =>
      cases hx with
      | low => exact ⟨hlow, by linarith, by linarith⟩
      | high => exact ⟨hlow.trans hle, by linarith, by linarith⟩

/-- A color that weighs as much as one that is pinned is not free: its proposal would lie beyond the
same bound. -/
theorem not_mem_free_of_pinned (h : Levelled weights b colors free s floor roof)
    (hnoneLow : s.tooLow weights b free = []) (hnoneHigh : s.tooHigh weights b free = [])
    {a c : Color} {x : ℚ} (hweight : weight weights a = weight weights c)
    (ha : PinnedAt weights b floor roof a x) : c ∉ free := by
  intro hc
  cases ha with
  | low hroof htop =>
      subst hroof
      rw [hweight] at htop
      exact ((low_le_proposal hnoneLow hc).trans (h.proposal_le_roof_mul hc)).not_gt htop
  | high hfloor =>
      rw [hweight] at hfloor
      exact ((h.floor_mul_le_proposal hc).trans (proposal_le_high hnoneHigh hc)).not_gt hfloor

theorem pinnedAt_unique (h : Levelled weights b colors free s floor roof) (hle : b.low ≤ b.high)
    {a c : Color} {x y : ℚ} (hweight : weight weights a = weight weights c)
    (hx : PinnedAt weights b floor roof a x) (hy : PinnedAt weights b floor roof c y) : x = y := by
  -- a weight is not both too low at the roof and too high at the floor
  have hnot : ∀ {top w : ℚ}, roof = some top → 0 ≤ w → top * w < b.low - epsilon →
      ¬ b.high + epsilon < floor * w := by
    intro top w hroof hw htop hfloor
    have := mul_le_mul_of_nonneg_right (h.floor_le_roof top hroof) hw
    have := epsilon_pos
    linarith
  have hwa : 0 ≤ weight weights a := positivePart_nonneg _
  cases hx with
  | low hroof htop =>
      cases hy with
      | low => rfl
      | high hfloor => exact absurd (hweight ▸ hfloor) (hnot hroof hwa htop)
  | high hfloor =>
      cases hy with
      | low hroof htop => exact absurd hfloor (hnot hroof hwa (hweight ▸ htop))
      | high => rfl

theorem outcome_unique (h : Levelled weights b colors free s floor roof) (hle : b.low ≤ b.high)
    (hnoneLow : s.tooLow weights b free = []) (hnoneHigh : s.tooHigh weights b free = [])
    {a c : Color} {x y : ℚ} (hweight : weight weights a = weight weights c)
    (hx : Outcome weights b free s floor roof a x) (hy : Outcome weights b free s floor roof c y) :
    x = y := by
  cases hx with
  | free ha =>
      cases hy with
      | free hc => exact proposal_congr hweight
      | pinned hy => exact absurd ha (h.not_mem_free_of_pinned hnoneLow hnoneHigh hweight.symm hy)
  | pinned hx =>
      cases hy with
      | free hc => exact absurd hc (h.not_mem_free_of_pinned hnoneLow hnoneHigh hweight hx)
      | pinned hy => exact h.pinnedAt_unique hle hweight hx hy

/-- A color below the upper bound has at least its proportion to a color above the lower bound. -/
theorem outcome_fair (h : Levelled weights b colors free s floor roof) (hlow : 0 ≤ b.low)
    (hle : b.low ≤ b.high) {a c : Color} {x y : ℚ}
    (hx : Outcome weights b free s floor roof a x) (hy : Outcome weights b free s floor roof c y)
    (hxhigh : x < b.high) (hylow : b.low < y) :
    y * weight weights a ≤ x * weight weights c := by
  have hwa : 0 ≤ weight weights a := positivePart_nonneg _
  have hwc : 0 ≤ weight weights c := positivePart_nonneg _
  have hepsilon := epsilon_pos
  cases hx with
  | free ha =>
      cases hy with
      | free hc => exact (proposal_mul_comm hc ha).le
      | pinned hy =>
          cases hy with
          | low => exact absurd hylow (lt_irrefl _)
          | high hfloor =>
              calc
                b.high * weight weights a ≤ floor * weight weights c * weight weights a :=
                    mul_le_mul_of_nonneg_right (by linarith) hwa
                _ = floor * weight weights a * weight weights c := by ring
                _ ≤ s.proposal weights free a * weight weights c :=
                    mul_le_mul_of_nonneg_right (h.floor_mul_le_proposal ha) hwc
  | pinned hx =>
      cases hx with
      | high => exact absurd hxhigh (lt_irrefl _)
      | @low top hroof htop =>
          subst hroof
          cases hy with
          | free hc =>
              calc
                s.proposal weights free c * weight weights a ≤
                    top * weight weights c * weight weights a :=
                    mul_le_mul_of_nonneg_right (h.proposal_le_roof_mul hc) hwa
                _ = top * weight weights a * weight weights c := by ring
                _ ≤ b.low * weight weights c := mul_le_mul_of_nonneg_right (by linarith) hwc
          | pinned hy =>
              cases hy with
              | low => exact absurd hylow (lt_irrefl _)
              | high hfloor =>
                  have hpos : 0 < floor := by
                    refine h.floor_nonneg.lt_of_ne' fun hzero ↦ ?_
                    rw [hzero, zero_mul] at hfloor
                    linarith
                  have hfloorA : floor * weight weights a ≤ b.low :=
                    (mul_le_mul_of_nonneg_right (h.floor_le_roof top rfl) hwa).trans (by linarith)
                  refine le_of_mul_le_mul_left ?_ hpos
                  calc
                    floor * (b.high * weight weights a) = b.high * (floor * weight weights a) := by
                        ring
                    _ ≤ b.high * b.low := mul_le_mul_of_nonneg_left hfloorA (hlow.trans hle)
                    _ ≤ floor * weight weights c * b.low :=
                        mul_le_mul_of_nonneg_right (by linarith) hlow
                    _ = floor * (b.low * weight weights c) := by ring

/-- Where no proposal lies beyond a bound, the proposals complete a fair distribution. -/
theorem fair_of_done (h : Levelled weights b colors free s floor roof) (hlow : 0 ≤ b.low)
    (hle : b.low ≤ b.high) (hfree : free ≠ []) (hnoneLow : s.tooLow weights b free = [])
    (hnoneHigh : s.tooHigh weights b free = []) :
    Fair weights b colors
      ({ s with pinned := s.pin free (s.proposal weights free) } : Sharing ℚ).share where
  sum_eq_one := by
    rw [← mass_eq_sum, mass_pin s fun c hc ↦ h.get_eq_none c (.inl hc),
      sum_proposal h.nodup hfree]
    ring
  eq_zero c hc := h.share_of_notMem hc
  nonneg c := by
    by_cases hc : c ∈ colors
    · exact (h.outcome_mem_range hlow hle hnoneLow hnoneHigh (h.outcome hc)).1
    · exact (h.share_of_notMem hc).ge
  low_le c hc := (h.outcome_mem_range hlow hle hnoneLow hnoneHigh (h.outcome hc)).2.1
  le_high c hc := (h.outcome_mem_range hlow hle hnoneLow hnoneHigh (h.outcome hc)).2.2
  fair a ha c hc := h.outcome_fair hlow hle (h.outcome ha) (h.outcome hc)
  even a ha c hc hweight :=
    h.outcome_unique hle hnoneLow hnoneHigh hweight (h.outcome ha) (h.outcome hc)

end Levelled

end Sharing

/-! ## What fairness implies -/

namespace Fair

variable {weights lighter : ByColor ℚ} {b : Bounds ℚ} {colors : List Color} {p q : Color → ℚ}

/-- Strictly between the bounds a fair distribution is proportional to the weights. -/
theorem mul_comm_of_inside (h : Fair weights b colors p) {a c : Color} (ha : a ∈ colors)
    (hc : c ∈ colors) (halow : b.low < p a) (hahigh : p a < b.high) (hclow : b.low < p c)
    (hchigh : p c < b.high) : p a * weight weights c = p c * weight weights a :=
  (h.fair c hc a ha hchigh halow).antisymm (h.fair a ha c hc hahigh hclow)

/-- A heavier color is no less likely, but for the slack of the bounds. -/
theorem le_of_weight_le (h : Fair weights b colors p) {a c : Color} (ha : a ∈ colors)
    (hc : c ∈ colors) (hweight : weight weights a ≤ weight weights c) : p a ≤ p c + epsilon := by
  by_contra hgt
  have hlow := h.low_le c hc
  have hhigh := h.le_high a ha
  have hfair := h.fair c hc a ha (by linarith) (by linarith)
  have hcross : p c * weight weights a ≤ p c * weight weights c :=
    mul_le_mul_of_nonneg_left hweight (h.nonneg c)
  have hepsilon := epsilon_pos
  have hzero : weight weights c ≤ 0 := by
    by_contra hpos
    have := mul_lt_mul_of_pos_right (show p c < p a by linarith) (not_le.mp hpos)
    linarith
  have hsame : weight weights a = weight weights c :=
    hweight.antisymm (hzero.trans (positivePart_nonneg _))
  have := h.even a ha c hc hsame
  linarith

/-- If one color is more likely than in another distribution, some other color is less likely. -/
theorem exists_lt_of_lt {slack : ℚ} (hp : ∑ d, p d = 1) (hq : ∑ d, q d = 1) {c : Color}
    (h : p c + 3 * slack < q c) : ∃ d, d ≠ c ∧ q d + slack < p d := by
  by_contra hnone
  have hle : ∀ d, d ≠ c → p d ≤ q d + slack := by
    intro d hd
    by_contra hlt
    exact hnone ⟨d, hd, not_le.mp hlt⟩
  have hcard : (Finset.univ.erase c).card = 3 := by
    rw [Finset.card_erase_of_mem (Finset.mem_univ c)]
    rfl
  have hsum : ∑ d ∈ Finset.univ.erase c, p d ≤ ∑ d ∈ Finset.univ.erase c, q d + 3 * slack := by
    calc
      ∑ d ∈ Finset.univ.erase c, p d ≤ ∑ d ∈ Finset.univ.erase c, (q d + slack) :=
          Finset.sum_le_sum fun d hd ↦ hle d (Finset.ne_of_mem_erase hd)
      _ = ∑ d ∈ Finset.univ.erase c, q d + 3 * slack := by
          rw [Finset.sum_add_distrib, Finset.sum_const, hcard, nsmul_eq_mul, Nat.cast_ofNat]
  rw [← Finset.add_sum_erase _ _ (Finset.mem_univ c)] at hp hq
  linarith

/-- Between two colors of which one gained and the other one lost, though their weights went the
other way, fairness before and after leaves no weight. -/
theorem weights_eq_zero {x y u v wc wd wc' wd' : ℚ} (hx : 0 ≤ x) (hxy : x < y) (hu : 0 ≤ u)
    (huv : u < v) (hwd : 0 ≤ wd) (hwc' : 0 ≤ wc') (hc : wc' ≤ wc) (hd : wd ≤ wd')
    (hfair : v * wc ≤ x * wd) (hfair' : y * wd' ≤ u * wc') :
    wc = 0 ∧ wd = 0 ∧ wc' = 0 ∧ wd' = 0 := by
  have hchain : y * wd ≤ u * wc :=
    calc
      y * wd ≤ y * wd' := mul_le_mul_of_nonneg_left hd (hx.trans hxy.le)
      _ ≤ u * wc' := hfair'
      _ ≤ u * wc := mul_le_mul_of_nonneg_left hc hu
  have hgain : 0 ≤ (y - x) * wd := mul_nonneg (sub_nonneg.mpr hxy.le) hwd
  have hloss : 0 ≤ (v - u) * wc := mul_nonneg (sub_nonneg.mpr huv.le) (hwc'.trans hc)
  have hzeroD : wd = 0 := by
    have : (y - x) * wd = 0 := by linarith
    exact (mul_eq_zero.mp this).resolve_left (sub_ne_zero.mpr hxy.ne')
  have hzeroC : wc = 0 := by
    have : (v - u) * wc = 0 := by linarith
    exact (mul_eq_zero.mp this).resolve_left (sub_ne_zero.mpr huv.ne')
  have hzeroC' : wc' = 0 := (hc.trans hzeroC.le).antisymm hwc'
  refine ⟨hzeroC, hzeroD, hzeroC', ?_⟩
  rw [hzeroC', mul_zero] at hfair'
  exact (nonpos_of_mul_nonpos_right hfair' (hx.trans_lt hxy)).antisymm (hwd.trans hd)

/-- A color that loses weight while no other color does is no more likely than before, but for the
slack of the bounds. -/
theorem le_of_lighter (h : Fair weights b colors p) (h' : Fair lighter b colors q) {c : Color}
    (hc : c ∈ colors) (hlighter : weight lighter c ≤ weight weights c)
    (hothers : ∀ d, d ≠ c → weight weights d ≤ weight lighter d) :
    q c ≤ p c + 3 * epsilon := by
  by_contra hgt
  obtain ⟨d, hdc, hd⟩ := exists_lt_of_lt h.sum_eq_one h'.sum_eq_one (not_le.mp hgt)
  have hepsilon := epsilon_pos
  have hpc := h.nonneg c
  have hqd := h'.nonneg d
  have hmem : d ∈ colors := by
    by_contra hnot
    have := h.eq_zero d hnot
    linarith
  have hlow := h.low_le c hc
  have hhigh := h'.le_high c hc
  have hlow' := h'.low_le d hmem
  have hhigh' := h.le_high d hmem
  obtain ⟨hzeroC, hzeroD, hzeroC', hzeroD'⟩ := weights_eq_zero hpc (by linarith) hqd (by linarith)
    (positivePart_nonneg _) (positivePart_nonneg _) hlighter (hothers d hdc)
    (h.fair c hc d hmem (by linarith) (by linarith))
    (h'.fair d hmem c hc (by linarith) (by linarith))
  -- without weight both are equally likely, before and after
  have heven := h.even c hc d hmem (hzeroC.trans hzeroD.symm)
  have heven' := h'.even c hc d hmem (hzeroC'.trans hzeroD'.symm)
  linarith

end Fair

end Wheel

end LessonDeck
