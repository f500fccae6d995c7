import LessonDeck.Proofs.Wheel.Support
/-!
# Rounds of sharing

A round of sharing either gives every free color what was proposed for it, since no proposal lies
clearly beyond a bound, or it pins colors: those whose proposals are too low, if the low proposals
lack at least as much as the high ones exceed, and those whose proposals are too high otherwise.  A
round that pins takes at least one color from the free ones, so that the rounds come to an end by
themselves.
-/

namespace LessonDeck

open Scalar

namespace Wheel

namespace Sharing

/-! ## The mass that is shared out -/

/-- What a color is pinned to; nothing if it is not pinned. -/
def share (s : Sharing ℚ) (c : Color) : ℚ :=
  (s.pinned.get c).getD 0

theorem mass_eq_sum (s : Sharing ℚ) : s.mass = ∑ c, s.share c := by
  rw [mass, sumOf_filter_all]
  refine Finset.sum_congr rfl fun c _ ↦ ?_
  rw [share]
  cases s.pinned.get c with
  | none => rfl
  | some x => rfl

/-- Pinning colors that had nothing adds what they are given. -/
theorem mass_pin (s : Sharing ℚ) {cs : List Color} (hfree : ∀ c ∈ cs, s.pinned.get c = none)
    (f : Color → ℚ) (rounds : ℕ) :
    (⟨s.pin cs f, rounds⟩ : Sharing ℚ).mass = s.mass + ∑ c ∈ cs.toFinset, f c := by
  have hentry : ∀ c, (⟨s.pin cs f, rounds⟩ : Sharing ℚ).share c =
      s.share c + if c ∈ cs.toFinset then f c else 0 := by
    intro c
    rw [share, share, get_pin]
    by_cases hc : c ∈ cs
    · simp [hc, hfree c hc]
    · simp [hc]
  rw [mass_eq_sum, mass_eq_sum, Finset.sum_congr rfl fun c _ ↦ hentry c, Finset.sum_add_distrib,
    Finset.sum_ite_mem, Finset.univ_inter]

variable (weights : ByColor ℚ) (b : Bounds ℚ) (s : Sharing ℚ) (free : List Color)

/-- What each free color gets for a unit of its weight. -/
def level : ℚ :=
  (1 - s.mass) / sumOf (weight weights) free

variable {weights b s free}

theorem proposal_eq_level_mul (h : 0 < sumOf (weight weights) free) (c : Color) :
    s.proposal weights free c = s.level weights free * weight weights c := by
  rw [proposal, if_pos h, level]
  ring

theorem proposal_of_total_eq_zero (h : sumOf (weight weights) free = 0) (c : Color) :
    s.proposal weights free c = (1 - s.mass) / (free.length : ℚ) := by
  rw [proposal, if_neg h.not_gt]

/-- Proposals depend on the colors through their weights only. -/
theorem proposal_congr {c d : Color} (h : weight weights c = weight weights d) :
    s.proposal weights free c = s.proposal weights free d := by
  rw [proposal, proposal, h]

theorem total_nonneg (weights : ByColor ℚ) (free : List Color) :
    0 ≤ sumOf (weight weights) free := by
  rw [sumOf_eq_sum]
  refine List.sum_nonneg fun x hx ↦ ?_
  obtain ⟨c, -, rfl⟩ := List.mem_map.mp hx
  exact positivePart_nonneg _

theorem weight_of_total_eq_zero (h : sumOf (weight weights) free = 0) {c : Color}
    (hc : c ∈ free) : weight weights c = 0 := by
  have hle : weight weights c ≤ (free.map (weight weights)).sum := by
    refine List.single_le_sum (fun x hx ↦ ?_) _ (List.mem_map_of_mem hc)
    obtain ⟨d, -, rfl⟩ := List.mem_map.mp hx
    exact positivePart_nonneg _
  rw [← sumOf_eq_sum, h] at hle
  exact hle.antisymm (positivePart_nonneg _)

/-- Proposals stand in the proportion of the weights. -/
theorem proposal_mul_comm {c d : Color} (hc : c ∈ free) (hd : d ∈ free) :
    s.proposal weights free c * weight weights d =
      s.proposal weights free d * weight weights c := by
  rcases (total_nonneg weights free).eq_or_lt with htotal | htotal
  · rw [weight_of_total_eq_zero htotal.symm hc, weight_of_total_eq_zero htotal.symm hd]
    ring
  · rw [proposal_eq_level_mul htotal, proposal_eq_level_mul htotal]
    ring

/-- The proposals share out all that is left. -/
theorem sum_proposal (hnodup : free.Nodup) (hfree : free ≠ []) :
    ∑ c ∈ free.toFinset, s.proposal weights free c = 1 - s.mass := by
  rcases (total_nonneg weights free).eq_or_lt with htotal | htotal
  · have hcard : (free.length : ℚ) ≠ 0 := by simpa using hfree
    rw [Finset.sum_congr rfl fun c _ ↦ proposal_of_total_eq_zero htotal.symm c, Finset.sum_const,
      List.toFinset_card_of_nodup hnodup, nsmul_eq_mul, mul_div_cancel₀ _ hcard]
  · rw [Finset.sum_congr rfl fun c _ ↦ proposal_eq_level_mul htotal c, ← Finset.mul_sum,
      ← sumOf_eq_sum_toFinset _ hnodup, level, div_mul_cancel₀ _ htotal.ne']

/-! ## What a round does -/

variable (weights b s free)

/-- The free colors whose proposals are clearly below the lower bound. -/
def tooLow : List Color :=
  free.filter fun c ↦ s.proposal weights free c < b.low - epsilon

/-- The free colors whose proposals are clearly above the upper bound. -/
def tooHigh : List Color :=
  free.filter fun c ↦ b.high + epsilon < s.proposal weights free c

/-- What the proposals that are too low lack. -/
def lack : ℚ :=
  sumOf (fun c ↦ b.low - s.proposal weights free c) (s.tooLow weights b free)

/-- What the proposals that are too high have in excess. -/
def excess : ℚ :=
  sumOf (fun c ↦ s.proposal weights free c - b.high) (s.tooHigh weights b free)

/-- The sharing after one more round, in which some colors were pinned to a bound. -/
def pinAll (cs : List Color) (x : ℚ) : Sharing ℚ :=
  ⟨s.pin cs fun _ ↦ x, s.rounds + 1⟩

variable {weights b s free}

theorem mem_tooLow {c : Color} :
    c ∈ s.tooLow weights b free ↔ c ∈ free ∧ s.proposal weights free c < b.low - epsilon := by
  rw [tooLow, List.mem_filter, decide_eq_true_iff]

theorem mem_tooHigh {c : Color} :
    c ∈ s.tooHigh weights b free ↔ c ∈ free ∧ b.high + epsilon < s.proposal weights free c := by
  rw [tooHigh, List.mem_filter, decide_eq_true_iff]

theorem low_le_proposal (h : s.tooLow weights b free = []) {c : Color} (hc : c ∈ free) :
    b.low - epsilon ≤ s.proposal weights free c := by
  by_contra hlt
  have hmem := (mem_tooLow (b := b)).mpr ⟨hc, not_le.mp hlt⟩
  rw [h] at hmem
  exact List.not_mem_nil hmem

theorem proposal_le_high (h : s.tooHigh weights b free = []) {c : Color} (hc : c ∈ free) :
    s.proposal weights free c ≤ b.high + epsilon := by
  by_contra hlt
  have hmem := (mem_tooHigh (b := b)).mpr ⟨hc, not_le.mp hlt⟩
  rw [h] at hmem
  exact List.not_mem_nil hmem

theorem lack_pos (h : s.tooLow weights b free ≠ []) : 0 < s.lack weights b free := by
  refine sumOf_pos (fun c hc ↦ ?_) h
  have hlow := (mem_tooLow.mp hc).2
  have := epsilon_pos
  linarith

theorem excess_pos (h : s.tooHigh weights b free ≠ []) : 0 < s.excess weights b free := by
  refine sumOf_pos (fun c hc ↦ ?_) h
  have hhigh := (mem_tooHigh.mp hc).2
  have := epsilon_pos
  linarith

theorem lack_of_eq_nil (h : s.tooLow weights b free = []) : s.lack weights b free = 0 := by
  rw [lack, h]
  rfl

theorem excess_of_eq_nil (h : s.tooHigh weights b free = []) : s.excess weights b free = 0 := by
  rw [excess, h]
  rfl

variable (weights b s free)

/-- What a round of sharing comes to, however many rounds may follow. -/
inductive Round : Prop where
  | done (hlow : s.tooLow weights b free = []) (hhigh : s.tooHigh weights b free = [])
      (hsettle : ∀ rounds, settle weights b (rounds + 1) free s =
        { s with pinned := s.pin free (s.proposal weights free) })
  | raised (hsome : s.tooLow weights b free ≠ [])
      (hside : s.excess weights b free ≤ s.lack weights b free)
      (hsettle : ∀ rounds, settle weights b (rounds + 1) free s =
        settle weights b rounds (free.filter fun c ↦ c ∉ s.tooLow weights b free)
          (s.pinAll (s.tooLow weights b free) b.low))
  | lowered (hsome : s.tooHigh weights b free ≠ [])
      (hside : s.lack weights b free ≤ s.excess weights b free)
      (hsettle : ∀ rounds, settle weights b (rounds + 1) free s =
        settle weights b rounds (free.filter fun c ↦ c ∉ s.tooHigh weights b free)
          (s.pinAll (s.tooHigh weights b free) b.high))

theorem settle_succ (hfree : free ≠ []) (rounds : ℕ) :
    settle weights b (rounds + 1) free s =
      if ¬ 0 < s.lack weights b free ∧ ¬ 0 < s.excess weights b free then
        { s with pinned := s.pin free (s.proposal weights free) }
      else if s.excess weights b free ≤ s.lack weights b free then
        settle weights b rounds (free.filter fun c ↦ c ∉ s.tooLow weights b free)
          (s.pinAll (s.tooLow weights b free) b.low)
      else
        settle weights b rounds (free.filter fun c ↦ c ∉ s.tooHigh weights b free)
          (s.pinAll (s.tooHigh weights b free) b.high) := by
  rw [settle, if_neg (by simpa using hfree)]
  rfl

theorem round (hfree : free ≠ []) : Round weights b s free := by
  have hsettle := settle_succ weights b s free hfree
  by_cases hlow : s.tooLow weights b free = []
  · have hlack := lack_of_eq_nil hlow
    by_cases hhigh : s.tooHigh weights b free = []
    · refine .done hlow hhigh fun rounds ↦ ?_
      rw [hsettle, hlack, excess_of_eq_nil hhigh, if_pos ⟨lt_irrefl 0, lt_irrefl 0⟩]
    · have hexcess := excess_pos hhigh
      refine .lowered hhigh (hlack.trans_le hexcess.le) fun rounds ↦ ?_
      rw [hsettle, if_neg fun h ↦ h.2 hexcess, if_neg (by rw [hlack]; exact hexcess.not_ge)]
  · have hlack := lack_pos hlow
    by_cases hside : s.excess weights b free ≤ s.lack weights b free
    · refine .raised hlow hside fun rounds ↦ ?_
      rw [hsettle, if_neg fun h ↦ h.1 hlack, if_pos hside]
    · have hhigh : s.tooHigh weights b free ≠ [] :=
        fun h ↦ hside ((excess_of_eq_nil h).trans_le hlack.le)
      refine .lowered hhigh (not_le.mp hside).le fun rounds ↦ ?_
      rw [hsettle, if_neg fun h ↦ h.1 hlack, if_neg hside]

/-! ## The rounds come to an end -/

variable {weights b s free}

theorem length_filter_notMem_lt {cs : List Color} (hsub : cs ⊆ free) (hcs : cs ≠ []) :
    (free.filter fun c ↦ c ∉ cs).length < free.length := by
  obtain ⟨c, hc⟩ := List.exists_mem_of_ne_nil cs hcs
  exact List.length_filter_lt_length_iff_exists.mpr ⟨c, hsub hc, by simpa using hc⟩

theorem tooLow_subset : s.tooLow weights b free ⊆ free :=
  List.filter_subset_self free

theorem tooHigh_subset : s.tooHigh weights b free ⊆ free :=
  List.filter_subset_self free

end Sharing

end Wheel

end LessonDeck
