import LessonDeck.Proofs.Wheel.Accepted
import LessonDeck.Wheel.Campaign
/-!
# What the rules of a campaign do to the weights

The first two rules exclude colors: a color that they exclude weighs nothing, and any other color
keeps its boosted weight.  The last two rules move weight between colors.  Each of them leaves the
total as it is, leaves yellow and blue without weight if they have none, and makes no weight negative,
and so do both together.
-/

namespace LessonDeck

open Scalar

namespace Campaign

variable {α : Type}

/-- Whether the rules exclude a color from the next draw: it would come twice in a row, or it is
yellow and the target is met. -/
def Excludes (w : Campaign α) (c : Color) : Prop :=
  (neverRepeats c = true ∧ w.history.getLast? = some c) ∨
    (c = .yellow ∧ w.rareTarget ≤ w.rareCount)

theorem neverRepeats_of_excludes {w : Campaign α} {c : Color} (h : w.Excludes c) :
    neverRepeats c = true := by
  rcases h with ⟨hc, -⟩ | ⟨rfl, -⟩
  · exact hc
  · rfl

theorem not_excludes_of_neverRepeats_eq_false (w : Campaign α) {c : Color}
    (hc : neverRepeats c = false) : ¬ w.Excludes c := by
  intro h
  rw [neverRepeats_of_excludes h] at hc
  exact Bool.false_ne_true hc.symm

theorem rareIsRequired_iff {w : Campaign α} :
    w.rareIsRequired = true ↔ 0 < w.deficit ∧ w.history.getLast? ≠ some .yellow ∧
      rareCapacity w.remaining false ≤ w.deficit := by
  simp [rareIsRequired, and_assoc]

theorem not_excludes_of_required {w : Campaign α} (h : w.rareIsRequired = true) :
    ¬ w.Excludes .yellow := by
  obtain ⟨hdeficit, hlast, -⟩ := rareIsRequired_iff.mp h
  rintro (⟨-, hrepeat⟩ | ⟨-, hmet⟩)
  · exact hlast hrepeat
  · exact hdeficit.ne' (Nat.sub_eq_zero_of_le hmet)

variable [Scalar α]

/-- The base weights, with the weight that yellow gains or loses. -/
def boosted (w : Campaign α) : ByColor α :=
  (w.boostRare w.baseWeights).1

/-- The weights after the first two rules. -/
def admitted (w : Campaign α) : ByColor α :=
  forbidRepeat w.history.getLast? w.boosted

/-- The weights after all rules. -/
def shaped (w : Campaign α) : ByColor α :=
  w.penalizeRepeat (w.rebalance w.admitted).1

theorem probabilities_of_not_required {w : Campaign α} (h : w.rareIsRequired = false) :
    w.plan.probabilities = Wheel.project w.shaped w.settings.bounds true := by
  rw [plan, h]
  rfl

theorem probabilities_of_required {w : Campaign α} (h : w.rareIsRequired = true) :
    w.plan.probabilities = ByColor.tabulate fun c ↦ if c = .yellow then 1 else 0 := by
  rw [plan, h]
  rfl

/-! ## Excluded colors weigh nothing -/

theorem get_forbidRepeat (last : Option Color) (weights : ByColor α) (c : Color) :
    (forbidRepeat last weights).get c =
      if neverRepeats c = true ∧ last = some c then 0 else weights.get c := by
  cases last with
  | none => simp [forbidRepeat]
  | some d =>
      by_cases hdc : d = c
      · subst d
        by_cases hc : neverRepeats c = true
        · simp [forbidRepeat, hc, ByColor.get_set]
        · simp [forbidRepeat, hc]
      · by_cases hd : neverRepeats d = true
        · simp [forbidRepeat, hd, ByColor.get_set, hdc, Ne.symm hdc]
        · simp [forbidRepeat, hd, hdc]

theorem get_boosted_yellow_of_met {w : Campaign α} (h : w.rareTarget ≤ w.rareCount) :
    w.boosted.get .yellow = 0 := by
  have hdeficit : w.deficit = 0 := Nat.sub_eq_zero_of_le h
  rw [boosted, boostRare, if_pos hdeficit, ByColor.get_set, if_pos rfl]

theorem get_admitted_of_excludes {w : Campaign α} {c : Color} (h : w.Excludes c) :
    w.admitted.get c = 0 := by
  rw [admitted, get_forbidRepeat]
  split
  · rfl
  · next hrepeat =>
    obtain ⟨rfl, hmet⟩ := h.resolve_left hrepeat
    exact get_boosted_yellow_of_met hmet

theorem get_admitted_of_not_excludes {w : Campaign α} {c : Color} (h : ¬ w.Excludes c) :
    w.admitted.get c = w.boosted.get c := by
  rw [admitted, get_forbidRepeat, if_neg fun hrepeat ↦ h (.inl hrepeat)]

theorem baseWeights_nonneg (w : Campaign ℚ) (c : Color) : 0 ≤ w.baseWeights.get c := by
  rw [baseWeights, ByColor.get_map]
  exact positivePart_nonneg _

theorem baseWeights_pos_iff {w : Campaign ℚ} {c : Color} :
    0 < w.baseWeights.get c ↔ 0 < w.settings.base.filled.get c := by
  rw [baseWeights, ByColor.get_map, positivePart_pos_iff]

theorem get_boosted_of_ne (w : Campaign ℚ) {c : Color} (hc : c ≠ .yellow) :
    w.boosted.get c = w.baseWeights.get c := by
  rw [boosted, boostRare]
  split
  · rw [ByColor.get_set, if_neg hc]
  · split
    · rw [ByColor.get_set, if_neg hc]
    · rfl

/-- The boost takes weight from yellow only when the target is met. -/
theorem baseWeights_le_boosted {w : Campaign ℚ} (hs : w.settings.Sound) {c : Color}
    (hc : ¬ w.Excludes c) : w.baseWeights.get c ≤ w.boosted.get c := by
  by_cases hyellow : c = .yellow
  · subst hyellow
    have hdeficit : w.deficit ≠ 0 := fun h ↦ hc (.inr ⟨rfl, Nat.le_of_sub_eq_zero h⟩)
    rw [boosted, boostRare, if_neg hdeficit]
    split
    · next hbehind =>
      rw [ByColor.get_set, if_pos rfl]
      exact le_add_of_nonneg_right (mul_nonneg hs.boost hbehind.le)
    · exact le_refl _
  · exact (get_boosted_of_ne w hyellow).ge

theorem admitted_nonneg {w : Campaign ℚ} (hs : w.settings.Sound) (c : Color) :
    0 ≤ w.admitted.get c := by
  by_cases h : w.Excludes c
  · exact (get_admitted_of_excludes h).ge
  · rw [get_admitted_of_not_excludes h]
    exact (baseWeights_nonneg w c).trans (baseWeights_le_boosted hs h)

/-! ## Weight that moves -/

/-- Weight has been moved between colors, to yellow and blue only where there was some. -/
structure MovesWeight (before after : ByColor ℚ) : Prop where
  nonneg : ∀ c, 0 ≤ after.get c
  sum : ∑ c, after.get c = ∑ c, before.get c
  zero_iff : ∀ c, neverRepeats c = true → (after.get c = 0 ↔ before.get c = 0)

namespace MovesWeight

variable {before between after : ByColor ℚ}

theorem refl (h : ∀ c, 0 ≤ before.get c) : MovesWeight before before where
  nonneg := h
  sum := rfl
  zero_iff _ _ := Iff.rfl

theorem trans (h : MovesWeight before between) (h' : MovesWeight between after) :
    MovesWeight before after where
  nonneg := h'.nonneg
  sum := h'.sum.trans h.sum
  zero_iff c hc := (h'.zero_iff c hc).trans (h.zero_iff c hc)

theorem exists_pos_iff (h : MovesWeight before after) (hbefore : ∀ c, 0 ≤ before.get c) :
    (∃ c, 0 < after.get c) ↔ ∃ c, 0 < before.get c := by
  have hpos (weights : ByColor ℚ) (hweights : ∀ c, 0 ≤ weights.get c) :
      (∃ c, 0 < weights.get c) ↔ 0 < ∑ c, weights.get c := by
    rw [Finset.sum_pos_iff_of_nonneg fun c _ ↦ hweights c]
    simp
  rw [hpos after h.nonneg, h.sum, ← hpos before hbefore]

end MovesWeight

/-! ## The third rule moves weight between green and red -/

theorem leader?_cases {w : Campaign ℚ} {leader trailer : Color}
    (h : w.leader? = some (leader, trailer)) :
    leader = .green ∧ trailer = .red ∨ leader = .red ∧ trailer = .green := by
  rw [leader?] at h
  split at h
  · simp_all
  · split at h
    · simp_all
    · simp at h

/-- The third rule leaves the weights alone, or moves weight from green to red or back. -/
theorem rebalance_cases (w : Campaign ℚ) (weights : ByColor ℚ) :
    (w.rebalance weights).1 = weights ∨
      ∃ leader trailer,
        (leader = .green ∧ trailer = .red ∨ leader = .red ∧ trailer = .green) ∧
        ∀ c, (w.rebalance weights).1.get c =
          if c = trailer then weights.get c + weights.get leader * w.settings.balanceShift
          else if c = leader then weights.get c - weights.get leader * w.settings.balanceShift
          else weights.get c := by
  cases hleader : w.leader? with
  | none =>
      left
      rw [rebalance, hleader]
  | some pair =>
      right
      obtain ⟨leader, trailer⟩ := pair
      have hpair := leader?_cases hleader
      have hne : trailer ≠ leader := by
        rcases hpair with ⟨rfl, rfl⟩ | ⟨rfl, rfl⟩ <;> decide
      refine ⟨leader, trailer, hpair, fun c ↦ ?_⟩
      rw [rebalance, hleader]
      dsimp only
      rw [ByColor.get_set, ByColor.get_set, ByColor.get_set, if_neg hne]
      by_cases htrailer : c = trailer
      · rw [if_pos htrailer, if_pos htrailer, htrailer]
      · rw [if_neg htrailer, if_neg htrailer]
        by_cases hlead : c = leader
        · rw [if_pos hlead, if_pos hlead, hlead]
        · rw [if_neg hlead, if_neg hlead]

theorem get_rebalance_of_neverRepeats (w : Campaign ℚ) (weights : ByColor ℚ) {c : Color}
    (hc : neverRepeats c = true) : (w.rebalance weights).1.get c = weights.get c := by
  rcases rebalance_cases w weights with heq | ⟨leader, trailer, hpair, hget⟩
  · rw [heq]
  · have hne : c ≠ trailer ∧ c ≠ leader := by
      rcases hpair with ⟨rfl, rfl⟩ | ⟨rfl, rfl⟩ <;>
        constructor <;> rintro rfl <;> simp [neverRepeats] at hc
    rw [hget, if_neg hne.1, if_neg hne.2]

theorem sum_rebalance (w : Campaign ℚ) (weights : ByColor ℚ) :
    ∑ c, (w.rebalance weights).1.get c = ∑ c, weights.get c := by
  rcases rebalance_cases w weights with heq | ⟨leader, trailer, hpair, hget⟩
  · rw [heq]
  · simp only [sum_color, hget]
    rcases hpair with ⟨rfl, rfl⟩ | ⟨rfl, rfl⟩
    · simp only [reduceCtorEq, if_true, if_false]
      ring
    · simp only [reduceCtorEq, if_true, if_false]
      ring

theorem rebalance_nonneg {w : Campaign ℚ} (hs : w.settings.Sound) {weights : ByColor ℚ}
    (h : ∀ c, 0 ≤ weights.get c) (c : Color) : 0 ≤ (w.rebalance weights).1.get c := by
  rcases rebalance_cases w weights with heq | ⟨leader, trailer, -, hget⟩
  · rw [heq]
    exact h c
  · rw [hget]
    split
    · exact add_nonneg (h c) (mul_nonneg (h leader) hs.shift.1)
    · split
      · next hlead =>
        rw [hlead]
        exact sub_nonneg.mpr (mul_le_of_le_one_right (h leader) hs.shift.2)
      · exact h c

theorem movesWeight_rebalance {w : Campaign ℚ} (hs : w.settings.Sound) {weights : ByColor ℚ}
    (h : ∀ c, 0 ≤ weights.get c) : MovesWeight weights (w.rebalance weights).1 where
  nonneg := rebalance_nonneg hs h
  sum := sum_rebalance w weights
  zero_iff c hc := by rw [get_rebalance_of_neverRepeats w weights hc]

/-! ## The fourth rule moves weight from the last color to the others -/

/-- The weight of the colors other than one. -/
def others (weights : ByColor ℚ) (c : Color) : ℚ :=
  sumOf weights.get (Color.all.filter fun d ↦ d ≠ c && decide (0 < weights.get d))

section Penalize

variable {weights : ByColor ℚ} {c : Color} {q : ℚ}

theorem others_pos_iff : 0 < others weights c ↔ ∃ d, d ≠ c ∧ 0 < weights.get d := by
  constructor
  · intro h
    by_contra hnone
    have hnil : (Color.all.filter fun d ↦ d ≠ c && decide (0 < weights.get d)) = [] := by
      refine List.filter_eq_nil_iff.mpr fun d _ hd ↦ hnone ⟨d, ?_⟩
      simpa using hd
    rw [others, hnil] at h
    exact lt_irrefl 0 h
  · rintro ⟨d, hd, hpos⟩
    have hmem : d ∈ Color.all.filter fun d ↦ d ≠ c && decide (0 < weights.get d) :=
      List.mem_filter.mpr ⟨mem_all d, by simpa using ⟨hd, hpos⟩⟩
    refine sumOf_pos (fun e he ↦ ?_) (List.ne_nil_of_mem hmem)
    have hmember := (List.mem_filter.mp he).2
    simp only [Bool.and_eq_true, decide_eq_true_eq] at hmember
    exact hmember.2

theorem weight_add_others (h : ∀ d, 0 ≤ weights.get d) (c : Color) :
    weights.get c + others weights c = ∑ d, weights.get d := by
  have hentry : ∀ d, weights.get d = (if d = c then weights.get d else 0) +
      if (d ≠ c && decide (0 < weights.get d)) = true then weights.get d else 0 := by
    intro d
    by_cases hd : d = c
    · simp [hd]
    · by_cases hpos : 0 < weights.get d
      · simp [hd, hpos]
      · simp [hd, (not_lt.mp hpos).antisymm (h d)]
  rw [Finset.sum_congr rfl fun d _ ↦ hentry d, Finset.sum_add_distrib, ← sumOf_filter_all,
    Finset.sum_ite_eq' Finset.univ c, if_pos (Finset.mem_univ c)]
  rfl

/-- Where no other color has weight there is nobody to give weight to. -/
theorem penalize_of_others_nonpos (q : ℚ) (h : others weights c ≤ 0) :
    penalize q c weights = weights := by
  rw [penalize]
  exact if_pos (.inr h)

theorem penalize_of_eq_zero (q : ℚ) (h : weights.get c = 0) : penalize q c weights = weights := by
  rw [penalize, h, zero_mul]
  exact if_pos (.inl le_rfl)

theorem get_penalize (hweights : ∀ d, 0 ≤ weights.get d) (hothers : 0 < others weights c)
    (hq : 0 ≤ q) (d : Color) :
    (penalize q c weights).get d = if d = c then weights.get c * (1 - q)
      else weights.get d * (1 + weights.get c * q / others weights c) := by
  rw [penalize]
  change (if weights.get c * q ≤ 0 ∨ others weights c ≤ 0 then weights else _).get d = _
  by_cases hremoved : weights.get c * q ≤ 0
  · have hzero : weights.get c * q = 0 := hremoved.antisymm (mul_nonneg (hweights c) hq)
    rw [if_pos (.inl hremoved), hzero, mul_sub, hzero]
    split
    · next hd => rw [hd, mul_one, sub_zero]
    · rw [zero_div, add_zero, mul_one]
  · rw [if_neg (not_or.mpr ⟨hremoved, hothers.not_ge⟩), ByColor.get_tabulate]
    split
    · next hd =>
      rw [hd]
      ring
    · dsimp only
      split
      · change weights.get d + weights.get c * q * weights.get d / others weights c = _
        ring
      · next hd =>
        have hzero : weights.get d = 0 := (not_lt.mp hd).antisymm (hweights d)
        rw [hzero, zero_mul]

/-- The penalty leaves the weights alone, or takes its share from the color and lets the others grow
in proportion. -/
theorem penalize_cases (h : ∀ d, 0 ≤ weights.get d) (hq : 0 ≤ q) (c : Color) :
    penalize q c weights = weights ∨
      0 < others weights c ∧ ∀ d, (penalize q c weights).get d =
        if d = c then weights.get c * (1 - q)
        else weights.get d * (1 + weights.get c * q / others weights c) := by
  by_cases hothers : 0 < others weights c
  · exact .inr ⟨hothers, get_penalize h hothers hq⟩
  · exact .inl (penalize_of_others_nonpos q (not_lt.mp hothers))

theorem sum_penalize (h : ∀ d, 0 ≤ weights.get d) (hq : 0 ≤ q) (c : Color) :
    ∑ d, (penalize q c weights).get d = ∑ d, weights.get d := by
  rcases penalize_cases h hq c with heq | ⟨hothers, hget⟩
  · rw [heq]
  · set growth := 1 + weights.get c * q / others weights c with hgrowth
    have hentry : ∀ d, (penalize q c weights).get d = weights.get d * growth +
        if d = c then weights.get c * (1 - q - growth) else 0 := by
      intro d
      rw [hget]
      by_cases hd : d = c
      · rw [if_pos hd, if_pos hd, hd]
        ring
      · rw [if_neg hd, if_neg hd, add_zero]
    calc
      _ = (∑ d, weights.get d) * growth + weights.get c * (1 - q - growth) := by
          rw [Finset.sum_congr rfl fun d _ ↦ hentry d, Finset.sum_add_distrib, ← Finset.sum_mul,
            Finset.sum_ite_eq' Finset.univ c, if_pos (Finset.mem_univ c)]
      _ = (weights.get c + others weights c) * growth + weights.get c * (1 - q - growth) := by
          rw [weight_add_others h]
      _ = weights.get c + others weights c := by
          rw [hgrowth]
          field_simp
          ring
      _ = ∑ d, weights.get d := weight_add_others h c

theorem movesWeight_penalize (h : ∀ d, 0 ≤ weights.get d) (hq : 0 ≤ q) (hq₁ : q ≤ 1)
    (hc : neverRepeats c = false) : MovesWeight weights (penalize q c weights) := by
  rcases penalize_cases h hq c with heq | ⟨hothers, hget⟩
  · rw [heq]
    exact .refl h
  · have hgrowth : 0 < 1 + weights.get c * q / others weights c := by
      have hshare := div_nonneg (mul_nonneg (h c) hq) hothers.le
      linarith
    refine ⟨?_, sum_penalize h hq c, ?_⟩
    · intro d
      rw [hget]
      split
      · exact mul_nonneg (h c) (sub_nonneg.mpr hq₁)
      · exact mul_nonneg (h d) hgrowth.le
    · intro d hd
      have hdc : d ≠ c := by
        rintro rfl
        exact Bool.false_ne_true (hc.symm.trans hd)
      rw [hget, if_neg hdc, mul_eq_zero_iff_right hgrowth.ne']

end Penalize

/-- The fourth rule leaves the weights alone, or has a color give up some that may repeat. -/
theorem penalizeRepeat_cases (w : Campaign ℚ) (weights : ByColor ℚ) :
    w.penalizeRepeat weights = weights ∨
      ∃ d, neverRepeats d = false ∧
        w.penalizeRepeat weights = penalize w.settings.repeatPenalty d weights := by
  rw [penalizeRepeat]
  cases w.history.getLast? with
  | none => exact .inl rfl
  | some d =>
      cases hd : neverRepeats d with
      | true => exact .inl (by simp [hd])
      | false => exact .inr ⟨d, hd, by simp [hd]⟩

theorem movesWeight_penalizeRepeat {w : Campaign ℚ} (hs : w.settings.Sound)
    {weights : ByColor ℚ} (h : ∀ c, 0 ≤ weights.get c) :
    MovesWeight weights (w.penalizeRepeat weights) := by
  rcases penalizeRepeat_cases w weights with heq | ⟨c, hc, heq⟩
  · rw [heq]
    exact .refl h
  · rw [heq]
    exact movesWeight_penalize h hs.penalty.1 hs.penalty.2 hc

/-! ## All rules together -/

theorem movesWeight_shaped {w : Campaign ℚ} (hs : w.settings.Sound) :
    MovesWeight w.admitted w.shaped := by
  have hthird := movesWeight_rebalance hs (admitted_nonneg hs)
  exact hthird.trans (movesWeight_penalizeRepeat hs hthird.nonneg)

theorem get_shaped_of_excludes {w : Campaign ℚ} (hs : w.settings.Sound) {c : Color}
    (h : w.Excludes c) : w.shaped.get c = 0 :=
  ((movesWeight_shaped hs).zero_iff c (neverRepeats_of_excludes h)).mpr (get_admitted_of_excludes h)

/-- Some color has weight when all rules have been applied exactly if some color that the rules do
not exclude had weight before. -/
theorem exists_shaped_pos_iff {w : Campaign ℚ} (hs : w.settings.Sound) :
    (∃ c, 0 < w.shaped.get c) ↔ ∃ c, ¬ w.Excludes c ∧ 0 < w.boosted.get c := by
  rw [(movesWeight_shaped hs).exists_pos_iff (admitted_nonneg hs)]
  refine exists_congr fun c ↦ ?_
  by_cases hc : w.Excludes c
  · simp [get_admitted_of_excludes hc, hc]
  · rw [get_admitted_of_not_excludes hc]
    simp [hc]

end Campaign

end LessonDeck
