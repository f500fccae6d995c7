import LessonDeck.Proofs.Wheel.Round
/-!
# The level of sharing

A round of sharing proposes to every free color its weight times one level.  Rounds that pin to the
lower bound bring the level down, and rounds that pin to the upper bound bring it up again.  It
stays between the last level at which colors were pinned to the upper bound, the floor, and the last
one at which colors were pinned to the lower bound, the roof: at the floor the free colors ask for
no more than what is left, though some of them are raised, and at the roof for no less, though some
of them are lowered.  Hence a color that is pinned would be pinned again at every later level, and the
colors never run out before the sharing is done.
-/

namespace LessonDeck

open Scalar

namespace Wheel

namespace Bounds

variable (b : Bounds ℚ)

/-- An amount, or the lower bound where the amount is clearly below it. -/
def raise (x : ℚ) : ℚ :=
  if x < b.low - epsilon then b.low else x

/-- An amount, or the upper bound where the amount is clearly above it. -/
def lower (x : ℚ) : ℚ :=
  if b.high + epsilon < x then b.high else x

/-- What a weight asks for at a level, lowered to the upper bound.  Where there is no roof to the
level, every weight asks for the upper bound. -/
def lowerAt : Option ℚ → ℚ → ℚ
  | none, _ => b.high
  | some level, w => b.lower (level * w)

variable {b} {x : ℚ}

theorem raise_of_lt (h : x < b.low - epsilon) : b.raise x = b.low :=
  if_pos h

theorem lower_of_lt (h : b.high + epsilon < x) : b.lower x = b.high :=
  if_pos h

theorem le_raise (b : Bounds ℚ) (x : ℚ) : x ≤ b.raise x := by
  have := epsilon_pos
  rw [raise]
  split
  · linarith
  · exact le_refl x

theorem lower_le (b : Bounds ℚ) (x : ℚ) : b.lower x ≤ x := by
  have := epsilon_pos
  rw [lower]
  split
  · linarith
  · exact le_refl x

theorem low_le_raise (b : Bounds ℚ) (x : ℚ) : b.low - epsilon ≤ b.raise x := by
  have := epsilon_pos
  rw [raise]
  split
  · linarith
  · next h => exact not_lt.mp h

theorem lowerAt_le_high (b : Bounds ℚ) (roof : Option ℚ) (w : ℚ) :
    b.lowerAt roof w ≤ b.high + epsilon := by
  have := epsilon_pos
  cases roof with
  | none =>
      rw [lowerAt]
      linarith
  | some level =>
      rw [lowerAt, lower]
      split
      · linarith
      · next h => exact not_lt.mp h

end Bounds

namespace Sharing

/-- Why a color is pinned to an amount: it is too low even at the roof, or too high even at the
floor. -/
inductive PinnedAt (weights : ByColor ℚ) (b : Bounds ℚ) (floor : ℚ) (roof : Option ℚ) (c : Color) :
    ℚ → Prop where
  | low {level : ℚ} (hroof : roof = some level)
      (h : level * weight weights c < b.low - epsilon) : PinnedAt weights b floor roof c b.low
  | high (h : b.high + epsilon < floor * weight weights c) : PinnedAt weights b floor roof c b.high

/-- The state of sharing between two rounds.  There is no roof as long as no color was pinned to the
lower bound. -/
structure Levelled (weights : ByColor ℚ) (b : Bounds ℚ) (colors free : List Color) (s : Sharing ℚ)
    (floor : ℚ) (roof : Option ℚ) : Prop where
  nodup : free.Nodup
  subset : free ⊆ colors
  get_eq_none : ∀ c, c ∈ free ∨ c ∉ colors → s.pinned.get c = none
  get_pinned : ∀ c ∈ colors, c ∉ free →
    ∃ x, s.pinned.get c = some x ∧ PinnedAt weights b floor roof c x
  floor_nonneg : 0 ≤ floor
  floor_le_roof : ∀ level, roof = some level → floor ≤ level
  floor_sum : ∑ c ∈ free.toFinset, b.raise (floor * weight weights c) ≤ 1 - s.mass
  roof_sum : 1 - s.mass ≤ ∑ c ∈ free.toFinset, b.lowerAt roof (weight weights c)

variable {weights : ByColor ℚ} {b : Bounds ℚ} {colors free : List Color} {s : Sharing ℚ}
  {floor : ℚ} {roof : Option ℚ}

theorem sum_const_toFinset (h : free.Nodup) (x : ℚ) :
    ∑ _c ∈ free.toFinset, x = x * free.length := by
  rw [Finset.sum_const, List.toFinset_card_of_nodup h, nsmul_eq_mul, mul_comm]

theorem Levelled.start (weights : ByColor ℚ) (hcolors : colors.Nodup) (hlow : 0 ≤ b.low)
    (hfits : b.low * colors.length ≤ 1) (hfills : 1 ≤ b.high * colors.length) :
    Levelled weights b colors colors start 0 none where
  nodup := hcolors
  subset := List.Subset.refl colors
  get_eq_none c _ := ByColor.get_tabulate _ c
  get_pinned c hc hfree := absurd hc hfree
  floor_nonneg := le_refl 0
  floor_le_roof level h := nomatch h
  floor_sum := by
    have hmass : (Sharing.start : Sharing ℚ).mass = 0 := rfl
    have hraise : b.raise 0 ≤ b.low := by
      rw [Bounds.raise]
      split
      · exact le_refl b.low
      · exact hlow
    calc
      ∑ c ∈ colors.toFinset, b.raise (0 * weight weights c) ≤ ∑ _c ∈ colors.toFinset, b.low :=
          Finset.sum_le_sum fun c _ ↦ by rwa [zero_mul]
      _ = b.low * colors.length := sum_const_toFinset hcolors b.low
      _ ≤ 1 - (Sharing.start : Sharing ℚ).mass := by rwa [hmass, sub_zero]
  roof_sum := by
    have hmass : (Sharing.start : Sharing ℚ).mass = 0 := rfl
    calc
      1 - (Sharing.start : Sharing ℚ).mass ≤ b.high * colors.length := by rwa [hmass, sub_zero]
      _ = ∑ c ∈ colors.toFinset, b.lowerAt none (weight weights c) :=
          (sum_const_toFinset hcolors b.high).symm

/-! ## The level lies between the floor and the roof -/

namespace Levelled

theorem floor_le_level (h : Levelled weights b colors free s floor roof)
    (htotal : 0 < sumOf (weight weights) free) : floor ≤ s.level weights free := by
  rw [level, le_div_iff₀ htotal, sumOf_eq_sum_toFinset _ h.nodup, Finset.mul_sum]
  exact (Finset.sum_le_sum fun c _ ↦ b.le_raise _).trans h.floor_sum

theorem level_le_roof {top : ℚ} (h : Levelled weights b colors free s floor (some top))
    (htotal : 0 < sumOf (weight weights) free) : s.level weights free ≤ top := by
  rw [level, div_le_iff₀ htotal, sumOf_eq_sum_toFinset _ h.nodup, Finset.mul_sum]
  exact h.roof_sum.trans (Finset.sum_le_sum fun c _ ↦ b.lower_le _)

/-- Free colors without weight share what is left in equal parts, and none of these lies beyond a
bound. -/
theorem inRange_of_total_eq_zero (h : Levelled weights b colors free s floor roof)
    (hfree : free ≠ []) (htotal : sumOf (weight weights) free = 0) (c : Color) :
    b.low - epsilon ≤ s.proposal weights free c ∧
      s.proposal weights free c ≤ b.high + epsilon := by
  have hlength : (0 : ℚ) < free.length := by
    exact_mod_cast List.length_pos_iff.mpr hfree
  rw [proposal_of_total_eq_zero htotal, le_div_iff₀ hlength, div_le_iff₀ hlength,
    ← sum_const_toFinset h.nodup, ← sum_const_toFinset h.nodup]
  constructor
  · exact (Finset.sum_le_sum fun c _ ↦ b.low_le_raise _).trans h.floor_sum
  · exact h.roof_sum.trans (Finset.sum_le_sum fun c _ ↦ b.lowerAt_le_high _ _)

theorem total_pos_of_lt_low (h : Levelled weights b colors free s floor roof) {c : Color}
    (hc : c ∈ s.tooLow weights b free) : 0 < sumOf (weight weights) free := by
  obtain ⟨hfree, hlow⟩ := mem_tooLow.mp hc
  refine (total_nonneg weights free).lt_of_ne' fun htotal ↦ ?_
  exact ((h.inRange_of_total_eq_zero (List.ne_nil_of_mem hfree) htotal c).1).not_gt hlow

theorem total_pos_of_high_lt (h : Levelled weights b colors free s floor roof) {c : Color}
    (hc : c ∈ s.tooHigh weights b free) : 0 < sumOf (weight weights) free := by
  obtain ⟨hfree, hhigh⟩ := mem_tooHigh.mp hc
  refine (total_nonneg weights free).lt_of_ne' fun htotal ↦ ?_
  exact ((h.inRange_of_total_eq_zero (List.ne_nil_of_mem hfree) htotal c).2).not_gt hhigh

/-- What a free color would ask for at the floor is no more than what is proposed for it. -/
theorem floor_mul_le_proposal (h : Levelled weights b colors free s floor roof) {c : Color}
    (hc : c ∈ free) : floor * weight weights c ≤ s.proposal weights free c := by
  have hw : 0 ≤ weight weights c := positivePart_nonneg _
  rcases (total_nonneg weights free).eq_or_lt with htotal | htotal
  · have hleft : 0 ≤ 1 - s.mass := by
      refine (Finset.sum_nonneg fun d _ ↦ ?_).trans h.floor_sum
      exact (mul_nonneg h.floor_nonneg (positivePart_nonneg _)).trans (b.le_raise _)
    rw [weight_of_total_eq_zero htotal.symm hc, mul_zero, proposal_of_total_eq_zero htotal.symm]
    exact div_nonneg hleft (Nat.cast_nonneg _)
  · rw [proposal_eq_level_mul htotal]
    exact mul_le_mul_of_nonneg_right (h.floor_le_level htotal) hw

/-- What a free color would ask for at the roof is no less than what is proposed for it. -/
theorem proposal_le_roof_mul {top : ℚ} (h : Levelled weights b colors free s floor (some top))
    {c : Color} (hc : c ∈ free) : s.proposal weights free c ≤ top * weight weights c := by
  have hw : 0 ≤ weight weights c := positivePart_nonneg _
  rcases (total_nonneg weights free).eq_or_lt with htotal | htotal
  · have hleft : 1 - s.mass ≤ 0 := by
      refine h.roof_sum.trans (Finset.sum_nonpos fun d hd ↦ (b.lower_le _).trans ?_)
      rw [weight_of_total_eq_zero htotal.symm (List.mem_toFinset.mp hd), mul_zero]
    rw [weight_of_total_eq_zero htotal.symm hc, mul_zero, proposal_of_total_eq_zero htotal.symm]
    exact div_nonpos_of_nonpos_of_nonneg hleft (Nat.cast_nonneg _)
  · rw [proposal_eq_level_mul htotal]
    exact mul_le_mul_of_nonneg_right (h.level_le_roof htotal) hw

end Levelled

/-! ## Rounds keep the state -/

theorem sum_filter_notMem {cs : List Color} (hsub : cs ⊆ free) (f : Color → ℚ) :
    ∑ c ∈ (free.filter fun c ↦ c ∉ cs).toFinset, f c =
      ∑ c ∈ free.toFinset, f c - ∑ c ∈ cs.toFinset, f c := by
  have hset : (free.filter fun c ↦ c ∉ cs).toFinset = free.toFinset \ cs.toFinset := by
    ext c
    simp
  rw [hset, eq_sub_iff_add_eq]
  exact Finset.sum_sdiff fun c hc ↦ by simpa using hsub (by simpa using hc)

theorem lack_eq_sum (weights : ByColor ℚ) (b : Bounds ℚ) (s : Sharing ℚ) (hnodup : free.Nodup) :
    s.lack weights b free = ∑ _c ∈ (s.tooLow weights b free).toFinset, b.low -
      ∑ c ∈ (s.tooLow weights b free).toFinset, s.proposal weights free c := by
  have hcs : (s.tooLow weights b free).Nodup := hnodup.filter _
  rw [lack, sumOf_eq_sum_toFinset _ hcs, Finset.sum_sub_distrib]

theorem excess_eq_sum (weights : ByColor ℚ) (b : Bounds ℚ) (s : Sharing ℚ) (hnodup : free.Nodup) :
    s.excess weights b free = ∑ c ∈ (s.tooHigh weights b free).toFinset, s.proposal weights free c -
      ∑ _c ∈ (s.tooHigh weights b free).toFinset, b.high := by
  have hcs : (s.tooHigh weights b free).Nodup := hnodup.filter _
  rw [excess, sumOf_eq_sum_toFinset _ hcs, Finset.sum_sub_distrib]

theorem sum_raise_proposal (hnodup : free.Nodup) (hfree : free ≠ []) :
    ∑ c ∈ free.toFinset, b.raise (s.proposal weights free c) =
      1 - s.mass + s.lack weights b free := by
  have hraise : ∀ x, b.raise x = x + if x < b.low - epsilon then b.low - x else 0 := by
    intro x
    rw [Bounds.raise]
    split <;> ring
  rw [Finset.sum_congr rfl fun c _ ↦ hraise _, Finset.sum_add_distrib,
    sum_proposal hnodup hfree, ← Finset.sum_filter, lack, tooLow,
    sumOf_eq_sum_toFinset _ (hnodup.filter _), List.toFinset_filter]
  simp only [decide_eq_true_eq]

theorem sum_lower_proposal (hnodup : free.Nodup) (hfree : free ≠ []) :
    ∑ c ∈ free.toFinset, b.lower (s.proposal weights free c) =
      1 - s.mass - s.excess weights b free := by
  have hlower : ∀ x, b.lower x = x - if b.high + epsilon < x then x - b.high else 0 := by
    intro x
    rw [Bounds.lower]
    split <;> ring
  rw [Finset.sum_congr rfl fun c _ ↦ hlower _, Finset.sum_sub_distrib,
    sum_proposal hnodup hfree, ← Finset.sum_filter, excess, tooHigh,
    sumOf_eq_sum_toFinset _ (hnodup.filter _), List.toFinset_filter]
  simp only [decide_eq_true_eq]

namespace Levelled

theorem mass_pinAll (h : Levelled weights b colors free s floor roof) {cs : List Color}
    (hcs : cs ⊆ free) (x : ℚ) :
    1 - (s.pinAll cs x).mass = 1 - s.mass - ∑ _c ∈ cs.toFinset, x := by
  rw [Sharing.pinAll, mass_pin s fun c hc ↦ h.get_eq_none c (.inl (hcs hc))]
  ring

/-- Pinning colors keeps the state if the floor does not sink, the roof does not rise, and what is
left still lies between what the other colors ask for there. -/
theorem pinAll (h : Levelled weights b colors free s floor roof) {cs : List Color}
    (hcs : cs ⊆ free) {x bottom : ℚ} {top : Option ℚ}
    (hx : ∀ c ∈ cs, PinnedAt weights b bottom top c x) (hbottom : floor ≤ bottom)
    (htop : ∀ level, roof = some level → ∃ level', top = some level' ∧ level' ≤ level)
    (hle : ∀ level, top = some level → bottom ≤ level)
    (hfloor : ∑ c ∈ (free.filter fun c ↦ c ∉ cs).toFinset, b.raise (bottom * weight weights c) ≤
      1 - s.mass - ∑ _c ∈ cs.toFinset, x)
    (hroof : 1 - s.mass - ∑ _c ∈ cs.toFinset, x ≤
      ∑ c ∈ (free.filter fun c ↦ c ∉ cs).toFinset, b.lowerAt top (weight weights c)) :
    Levelled weights b colors (free.filter fun c ↦ c ∉ cs) (s.pinAll cs x) bottom top := by
  have hmass := h.mass_pinAll hcs x
  have hget : ∀ c, (s.pinAll cs x).pinned.get c = if c ∈ cs then some x else s.pinned.get c :=
    fun c ↦ get_pin s cs _ c
  refine ⟨h.nodup.filter _, fun c hc ↦ h.subset (List.mem_of_mem_filter hc), fun c hc ↦ ?_,
    fun c hc hfree ↦ ?_, h.floor_nonneg.trans hbottom, hle, hmass ▸ hfloor, hmass ▸ hroof⟩
  · have hnot : c ∉ cs := by
      rcases hc with hc | hc
      · simpa using (List.mem_filter.mp hc).2
      · exact fun hin ↦ hc (h.subset (hcs hin))
    rw [hget, if_neg hnot]
    exact h.get_eq_none c (hc.imp_left List.mem_of_mem_filter)
  · rw [hget]
    by_cases hin : c ∈ cs
    · rw [if_pos hin]
      exact ⟨x, rfl, hx c hin⟩
    · rw [if_neg hin]
      obtain ⟨y, hy, hpinned⟩ := h.get_pinned c hc fun hc ↦ hfree (by simp [hc, hin])
      have hw : 0 ≤ weight weights c := positivePart_nonneg _
      refine ⟨y, hy, ?_⟩
      cases hpinned with
      | low hroof hlow =>
          obtain ⟨level', htop', hlevel⟩ := htop _ hroof
          exact .low htop' ((mul_le_mul_of_nonneg_right hlevel hw).trans_lt hlow)
      | high hhigh => exact .high (hhigh.trans_le (mul_le_mul_of_nonneg_right hbottom hw))

/-- Once no color is free, nothing is left: what was pinned is what was proposed in sum. -/
theorem sum_eq_of_filter_eq_nil (h : Levelled weights b colors free s floor roof)
    (hfree : free ≠ []) {cs : List Color} (hcs : cs ⊆ free) {x bottom : ℚ} {top : Option ℚ}
    (hnext : Levelled weights b colors (free.filter fun c ↦ c ∉ cs) (s.pinAll cs x) bottom top)
    (hnil : (free.filter fun c ↦ c ∉ cs) = []) :
    ∑ c ∈ cs.toFinset, s.proposal weights free c = ∑ _c ∈ cs.toFinset, x := by
  have hshared := sum_filter_notMem hcs (s.proposal weights free)
  have hfloor := hnext.floor_sum
  have hroof := hnext.roof_sum
  rw [sum_proposal h.nodup hfree] at hshared
  rw [h.mass_pinAll hcs] at hfloor hroof
  rw [hnil, List.toFinset_nil, Finset.sum_empty] at hshared hfloor hroof
  linarith

/-- Colors that are too low are pinned to the lower bound, and the level becomes the roof. -/
theorem raised (h : Levelled weights b colors free s floor roof)
    (hsome : s.tooLow weights b free ≠ [])
    (hside : s.excess weights b free ≤ s.lack weights b free) :
    Levelled weights b colors (free.filter fun c ↦ c ∉ s.tooLow weights b free)
      (s.pinAll (s.tooLow weights b free) b.low) floor (some (s.level weights free)) := by
  obtain ⟨d, hd⟩ := List.exists_mem_of_ne_nil _ hsome
  have hfree : free ≠ [] := List.ne_nil_of_mem (tooLow_subset hd)
  have htotal := h.total_pos_of_lt_low hd
  have hproposal := proposal_eq_level_mul (s := s) htotal
  have hlow : ∀ c ∈ s.tooLow weights b free,
      s.level weights free * weight weights c < b.low - epsilon :=
    fun c hc ↦ hproposal c ▸ (mem_tooLow.mp hc).2
  refine h.pinAll tooLow_subset (fun c hc ↦ .low rfl (hlow c hc)) (le_refl _)
    (fun top htop ↦ ⟨_, rfl, ?_⟩) (fun level hlevel ↦ ?_) ?_ ?_
  · subst htop
    exact h.level_le_roof htotal
  · obtain rfl := Option.some.inj hlevel
    exact h.floor_le_level htotal
  · -- at the floor these colors are too low as well, so that they count with the lower bound there
    have hfloor : ∑ c ∈ (s.tooLow weights b free).toFinset, b.raise (floor * weight weights c) =
        ∑ _c ∈ (s.tooLow weights b free).toFinset, b.low := by
      refine Finset.sum_congr rfl fun c hc ↦ Bounds.raise_of_lt ?_
      have hw : 0 ≤ weight weights c := positivePart_nonneg _
      exact (mul_le_mul_of_nonneg_right (h.floor_le_level htotal) hw).trans_lt
        (hlow c (List.mem_toFinset.mp hc))
    rw [sum_filter_notMem tooLow_subset, hfloor]
    exact sub_le_sub_right h.floor_sum _
  · have hlower : ∑ c ∈ (s.tooLow weights b free).toFinset, b.lower (s.proposal weights free c) ≤
        ∑ c ∈ (s.tooLow weights b free).toFinset, s.proposal weights free c :=
      Finset.sum_le_sum fun c _ ↦ b.lower_le _
    have hlack := lack_eq_sum weights b s h.nodup
    simp only [Bounds.lowerAt, ← hproposal]
    rw [sum_filter_notMem tooLow_subset, sum_lower_proposal h.nodup hfree]
    linarith

/-- Colors that are too high are pinned to the upper bound, and the level becomes the floor. -/
theorem lowered (h : Levelled weights b colors free s floor roof)
    (hsome : s.tooHigh weights b free ≠ [])
    (hside : s.lack weights b free ≤ s.excess weights b free) :
    Levelled weights b colors (free.filter fun c ↦ c ∉ s.tooHigh weights b free)
      (s.pinAll (s.tooHigh weights b free) b.high) (s.level weights free) roof := by
  obtain ⟨d, hd⟩ := List.exists_mem_of_ne_nil _ hsome
  have hfree : free ≠ [] := List.ne_nil_of_mem (tooHigh_subset hd)
  have htotal := h.total_pos_of_high_lt hd
  have hproposal := proposal_eq_level_mul (s := s) htotal
  have hhigh : ∀ c ∈ s.tooHigh weights b free,
      b.high + epsilon < s.level weights free * weight weights c :=
    fun c hc ↦ hproposal c ▸ (mem_tooHigh.mp hc).2
  refine h.pinAll tooHigh_subset (fun c hc ↦ .high (hhigh c hc)) (h.floor_le_level htotal)
    (fun top htop ↦ ⟨top, htop, le_refl _⟩) (fun top htop ↦ ?_) ?_ ?_
  · subst htop
    exact h.level_le_roof htotal
  · have hraise : ∑ c ∈ (s.tooHigh weights b free).toFinset, s.proposal weights free c ≤
        ∑ c ∈ (s.tooHigh weights b free).toFinset, b.raise (s.proposal weights free c) :=
      Finset.sum_le_sum fun c _ ↦ b.le_raise _
    have hexcess := excess_eq_sum weights b s h.nodup
    simp only [← hproposal]
    rw [sum_filter_notMem tooHigh_subset, sum_raise_proposal h.nodup hfree]
    linarith
  · -- at the roof these colors are too high as well, so that they count with the upper bound there
    have hroof : ∑ c ∈ (s.tooHigh weights b free).toFinset, b.lowerAt roof (weight weights c) =
        ∑ _c ∈ (s.tooHigh weights b free).toFinset, b.high := by
      cases roof with
      | none => rfl
      | some top =>
          refine Finset.sum_congr rfl fun c hc ↦ Bounds.lower_of_lt ?_
          have hw : 0 ≤ weight weights c := positivePart_nonneg _
          exact (hhigh c (List.mem_toFinset.mp hc)).trans_le
            (mul_le_mul_of_nonneg_right (h.level_le_roof htotal) hw)
    rw [sum_filter_notMem tooHigh_subset, hroof]
    exact sub_le_sub_right h.roof_sum _

/-- The colors do not run out: they would have to do with less than the lower bound each. -/
theorem raised_ne_nil (h : Levelled weights b colors free s floor roof)
    (hsome : s.tooLow weights b free ≠ [])
    (hside : s.excess weights b free ≤ s.lack weights b free) :
    (free.filter fun c ↦ c ∉ s.tooLow weights b free) ≠ [] := by
  intro hnil
  obtain ⟨d, hd⟩ := List.exists_mem_of_ne_nil _ hsome
  have hsum := h.sum_eq_of_filter_eq_nil (List.ne_nil_of_mem (tooLow_subset hd)) tooLow_subset
    (h.raised hsome hside) hnil
  have hlack := lack_pos hsome
  rw [lack_eq_sum weights b s h.nodup, hsum, sub_self] at hlack
  exact hlack.false

/-- The colors do not run out: they would have to take more than the upper bound each. -/
theorem lowered_ne_nil (h : Levelled weights b colors free s floor roof)
    (hsome : s.tooHigh weights b free ≠ [])
    (hside : s.lack weights b free ≤ s.excess weights b free) :
    (free.filter fun c ↦ c ∉ s.tooHigh weights b free) ≠ [] := by
  intro hnil
  obtain ⟨d, hd⟩ := List.exists_mem_of_ne_nil _ hsome
  have hsum := h.sum_eq_of_filter_eq_nil (List.ne_nil_of_mem (tooHigh_subset hd)) tooHigh_subset
    (h.lowered hsome hside) hnil
  have hexcess := excess_pos hsome
  rw [excess_eq_sum weights b s h.nodup, hsum, sub_self] at hexcess
  exact hexcess.false

/-- Sharing ends with a round in which no proposal lies beyond a bound.  At that time some color is
free, so that fewer rounds pinned colors than there were colors. -/
theorem exists_done {rounds : ℕ} (h : Levelled weights b colors free s floor roof)
    (hfree : free ≠ []) (hrounds : free.length ≤ rounds) :
    ∃ left t bottom top, Levelled weights b colors left t bottom top ∧ left ≠ [] ∧
      t.tooLow weights b left = [] ∧ t.tooHigh weights b left = [] ∧
      t.rounds + left.length ≤ s.rounds + free.length ∧
      settle weights b rounds free s =
        { t with pinned := t.pin left (t.proposal weights left) } := by
  induction rounds generalizing free s floor roof with
  | zero => exact absurd (List.length_eq_zero_iff.mp (Nat.le_zero.mp hrounds)) hfree
  | succ rounds ih =>
      cases round weights b s free hfree with
      | done hlow hhigh hsettle =>
          exact ⟨free, s, floor, roof, h, hfree, hlow, hhigh, le_refl _, hsettle rounds⟩
      | raised hsome hside hsettle =>
          have hlt := length_filter_notMem_lt tooLow_subset hsome
          obtain ⟨left, t, bottom, top, hlevelled, hleft, hlow, hhigh, hcount, hdone⟩ :=
            ih (h.raised hsome hside) (h.raised_ne_nil hsome hside) (by omega)
          refine ⟨left, t, bottom, top, hlevelled, hleft, hlow, hhigh, ?_, ?_⟩
          · have hpinned : (s.pinAll (s.tooLow weights b free) b.low).rounds = s.rounds + 1 := rfl
            omega
          · rw [hsettle, hdone]
      | lowered hsome hside hsettle =>
          have hlt := length_filter_notMem_lt tooHigh_subset hsome
          obtain ⟨left, t, bottom, top, hlevelled, hleft, hlow, hhigh, hcount, hdone⟩ :=
            ih (h.lowered hsome hside) (h.lowered_ne_nil hsome hside) (by omega)
          refine ⟨left, t, bottom, top, hlevelled, hleft, hlow, hhigh, ?_, ?_⟩
          · have hpinned : (s.pinAll (s.tooHigh weights b free) b.high).rounds = s.rounds + 1 := rfl
            omega
          · rw [hsettle, hdone]

end Levelled

end Sharing

end Wheel

end LessonDeck
