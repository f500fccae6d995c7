import LessonDeck.Proofs.Wheel.Support
/-!
# Draws against the cumulative distribution

A draw gives the color with which the cumulative probability reaches it.  In this way the colors
that have any probability divide the unit among themselves, in the order of the wheel.  Each gets an
interval that begins where the colors before it end and is as long as the color is likely.  The end
of an interval belongs to it, and its beginning to the color before; zero, which is the end of no
interval, belongs to the first one.
-/

namespace LessonDeck

open Scalar

theorem Color.pairwise_index_all : Color.all.Pairwise fun c d ↦ c.index < d.index := by
  decide

theorem Color.index_injective : Function.Injective Color.index := by
  intro c d
  cases c <;> cases d <;> decide

namespace Wheel

/-- The probability of all colors before one, in the order of the wheel. -/
def massBefore (p : ByColor ℚ) (c : Color) : ℚ :=
  ∑ d with d.index < c.index, p.get d

/-- A draw belongs to a color that has probability if it lies beyond the colors before, or at zero
where these have none, and not beyond the color itself. -/
structure FallsTo (p : ByColor ℚ) (r : ℚ) (c : Color) : Prop where
  pos : 0 < p.get c
  beyond : massBefore p c < r ∨ (r = 0 ∧ massBefore p c = 0)
  within : r ≤ massBefore p c + p.get c

/-- The draws that give a color. -/
def draws (p : ByColor ℚ) (c : Color) : Set ℚ :=
  {r | r ∈ Set.Ico 0 1 ∧ sample p r = c}

/-- The numbers of a set make up an interval, with or without either of its ends. -/
structure IsInterval (s : Set ℚ) (low high : ℚ) : Prop where
  inside : Set.Ioo low high ⊆ s
  outside : s ⊆ Set.Icc low high

variable {p : ByColor ℚ} {r : ℚ}

/-! ## The mass before a color -/

theorem massBefore_eq_sumOf (p : ByColor ℚ) {c : Color} {before after : List Color}
    (h : Color.all = before ++ c :: after) : massBefore p c = sumOf p.get before := by
  have hordered : (before ++ c :: after).Pairwise fun c d ↦ c.index < d.index :=
    h ▸ Color.pairwise_index_all
  obtain ⟨-, hafter, hbefore⟩ := List.pairwise_append.mp hordered
  have hkept : ∀ d ∈ before, decide (d.index < c.index) = true :=
    fun d hd ↦ decide_eq_true (hbefore d hd c List.mem_cons_self)
  have hdropped : ∀ d ∈ c :: after, ¬ decide (d.index < c.index) = true := by
    intro d hd
    rw [decide_eq_true_eq, not_lt]
    rcases List.mem_cons.mp hd with rfl | hd
    · exact le_refl _
    · exact ((List.pairwise_cons.mp hafter).1 d hd).le
  have hfilter : (Color.all.filter fun d ↦ decide (d.index < c.index)) = before := by
    rw [h, List.filter_append, List.filter_eq_self.mpr hkept, List.filter_eq_nil_iff.mpr hdropped,
      List.append_nil]
  rw [massBefore, Finset.sum_filter, ← hfilter, sumOf_filter_all]
  simp only [decide_eq_true_eq]

/-- With its own probability the mass before a color is that of the colors up to it. -/
theorem massBefore_add_get (p : ByColor ℚ) (c : Color) :
    massBefore p c + p.get c = ∑ d with d.index ≤ c.index, p.get d := by
  have hinsert : ({d | d.index ≤ c.index} : Finset Color) =
      insert c ({d | d.index < c.index} : Finset Color) := by
    ext d
    simp [le_iff_eq_or_lt, Color.index_injective.eq_iff]
  rw [hinsert, Finset.sum_insert (by simp), add_comm, massBefore]

section Nonneg

variable (hp : ∀ c, 0 ≤ p.get c)
include hp

theorem massBefore_nonneg (c : Color) : 0 ≤ massBefore p c :=
  Finset.sum_nonneg fun d _ ↦ hp d

theorem massBefore_add_get_le_sum (c : Color) : massBefore p c + p.get c ≤ ∑ d, p.get d := by
  rw [massBefore_add_get]
  exact Finset.sum_le_univ_sum_of_nonneg hp

/-- A color ends before a later one begins. -/
theorem massBefore_add_get_le {c d : Color} (h : c.index < d.index) :
    massBefore p c + p.get c ≤ massBefore p d := by
  rw [massBefore_add_get, massBefore]
  refine Finset.sum_le_sum_of_subset_of_nonneg (fun e he ↦ ?_) fun e _ _ ↦ hp e
  rw [Finset.mem_filter_univ] at he ⊢
  exact he.trans_lt h

/-- A greater draw belongs to no earlier color. -/
theorem FallsTo.index_le {r₁ r₂ : ℚ} {c₁ c₂ : Color} (h₁ : FallsTo p r₁ c₁) (h₂ : FallsTo p r₂ c₂)
    (hr : r₁ ≤ r₂) : c₁.index ≤ c₂.index := by
  by_contra hindex
  have hends := massBefore_add_get_le hp (not_le.mp hindex)
  rcases h₁.beyond with hbeyond | ⟨-, hzero⟩
  · exact (hbeyond.trans_le (hr.trans (h₂.within.trans hends))).false
  · -- nothing lies before `c₁`, yet `c₂` has probability and ends no later
    have hpos := add_pos_of_nonneg_of_pos (massBefore_nonneg hp c₂) h₂.pos
    exact (hpos.trans_le (hends.trans_eq hzero)).false

theorem FallsTo.unique {c d : Color} (hc : FallsTo p r c) (hd : FallsTo p r d) : c = d :=
  Color.index_injective ((hc.index_le hp hd (le_refl r)).antisymm (hd.index_le hp hc (le_refl r)))

end Nonneg

/-! ## The walk along the colors -/

/-- The walk has not reached the draw with the colors that it has passed: the draw lies beyond them,
or the walk still stands at zero and some color ahead has probability. -/
structure Walked (p : ByColor ℚ) (r : ℚ) (passed ahead : List Color) : Prop where
  all : Color.all = passed ++ ahead
  beyond : sumOf p.get passed < r ∨
    (r = 0 ∧ sumOf p.get passed = 0 ∧ ∃ c ∈ ahead, 0 < p.get c)

theorem sumOf_concat (passed : List Color) (c : Color) :
    sumOf p.get (passed ++ [c]) = sumOf p.get passed + p.get c :=
  List.foldl_concat _ _ c passed

namespace Walked

variable {c : Color} {passed ahead : List Color}

theorem start (hsome : ∃ c, 0 < p.get c) (hr : 0 ≤ r) : Walked p r [] Color.all where
  all := rfl
  beyond := by
    rcases hr.lt_or_eq with hpos | hzero
    · exact .inl hpos
    · obtain ⟨c, hc⟩ := hsome
      exact .inr ⟨hzero.symm, rfl, c, mem_all c, hc⟩

theorem all_concat (h : Walked p r passed (c :: ahead)) :
    Color.all = (passed ++ [c]) ++ ahead := by
  rw [h.all, List.append_assoc, List.singleton_append]

theorem pass_of_lt (h : Walked p r passed (c :: ahead)) (hr : sumOf p.get passed + p.get c < r) :
    Walked p r (passed ++ [c]) ahead where
  all := h.all_concat
  beyond := .inl (by rwa [sumOf_concat])

theorem pass_of_eq_zero (h : Walked p r passed (c :: ahead)) (hc : p.get c = 0) :
    Walked p r (passed ++ [c]) ahead where
  all := h.all_concat
  beyond := by
    rw [sumOf_concat, hc, add_zero]
    refine h.beyond.imp_right fun ⟨hr, hpassed, d, hd, hpos⟩ ↦ ⟨hr, hpassed, d, ?_, hpos⟩
    exact (List.mem_cons.mp hd).resolve_left fun hdc ↦ hpos.ne' (hdc ▸ hc)

theorem fallsTo (h : Walked p r passed (c :: ahead)) (hc : 0 < p.get c)
    (hr : r ≤ sumOf p.get passed + p.get c) : FallsTo p r c := by
  have hmass : massBefore p c = sumOf p.get passed := massBefore_eq_sumOf p h.all
  refine ⟨hc, ?_, by rwa [hmass]⟩
  rw [hmass]
  exact h.beyond.imp_right fun ⟨hr, hpassed, _⟩ ↦ ⟨hr, hpassed⟩

theorem ahead_ne_nil (h : Walked p r passed ahead) (hr : r ≤ ∑ c, p.get c) : ahead ≠ [] := by
  rintro rfl
  rcases h.beyond with hlt | ⟨-, -, c, hc, -⟩
  · have hpassed : passed = Color.all := by rw [h.all, List.append_nil]
    rw [hpassed, sumOf_all] at hlt
    exact hlt.not_ge hr
  · exact absurd hc List.not_mem_nil

/-- The walk stops at the color to which the draw belongs. -/
theorem fallsTo_sampleFrom (hp : ∀ c, 0 ≤ p.get c) (h : Walked p r passed ahead)
    (hr : r ≤ ∑ c, p.get c) (last : Option Color) :
    FallsTo p r (sampleFrom p r (sumOf p.get passed) last ahead) := by
  induction ahead generalizing passed last with
  | nil => exact absurd rfl (h.ahead_ne_nil hr)
  | cons c ahead ih =>
      rw [sampleFrom, weight_of_nonneg (hp c)]
      by_cases hc : 0 < p.get c
      · by_cases hreached : r ≤ sumOf p.get passed + p.get c
        · rw [if_pos hc, if_pos hreached]
          exact h.fallsTo hc hreached
        · rw [if_pos hc, if_neg hreached, ← sumOf_concat]
          exact ih (h.pass_of_lt (not_le.mp hreached)) _
      · have hzero : p.get c = 0 := (not_lt.mp hc).antisymm (hp c)
        have hpassed : sumOf p.get (passed ++ [c]) = sumOf p.get passed := by
          rw [sumOf_concat, hzero, add_zero]
        -- passing it leaves the sum, and the last color with probability, as they are
        rw [if_neg hc, ← hpassed]
        exact ih (h.pass_of_eq_zero hzero) _

end Walked

/-! ## What a draw gives -/

section Distribution

variable (hp : ∀ c, 0 ≤ p.get c) (hsum : ∑ c, p.get c = 1)
include hp hsum

theorem fallsTo_sample (hr : r ∈ Set.Ico 0 1) : FallsTo p r (sample p r) := by
  have hsome : ∃ c, 0 < p.get c := by
    obtain ⟨c, -, hc⟩ := (Finset.sum_pos_iff_of_nonneg fun c _ ↦ hp c).mp (hsum ▸ one_pos)
    exact ⟨c, hc⟩
  exact (Walked.start hsome hr.1).fallsTo_sampleFrom hp (hsum ▸ hr.2.le) none

theorem sample_eq_iff (hr : r ∈ Set.Ico 0 1) {c : Color} : sample p r = c ↔ FallsTo p r c := by
  have hsample := fallsTo_sample hp hsum hr
  constructor
  · rintro rfl
    exact hsample
  · exact hsample.unique hp

theorem isInterval_draws (c : Color) :
    IsInterval (draws p c) (massBefore p c) (massBefore p c + p.get c) where
  inside := by
    rintro r ⟨hlow, hhigh⟩
    have hend : massBefore p c + p.get c ≤ 1 := hsum ▸ massBefore_add_get_le_sum hp c
    have hr : r ∈ Set.Ico 0 1 := ⟨(massBefore_nonneg hp c).trans hlow.le, hhigh.trans_le hend⟩
    have hpos : 0 < p.get c := pos_of_lt_add_right (hlow.trans hhigh)
    exact ⟨hr, (sample_eq_iff hp hsum hr).mpr ⟨hpos, .inl hlow, hhigh.le⟩⟩
  outside := by
    rintro r ⟨hr, hsample⟩
    have hfalls := (sample_eq_iff hp hsum hr).mp hsample
    refine ⟨?_, hfalls.within⟩
    rcases hfalls.beyond with hlt | ⟨hzero, hmass⟩
    · exact hlt.le
    · rw [hzero, hmass]

end Distribution

/-- Drawing inverts the cumulative distribution.  A draw gives a color that has probability, the one
to which it belongs.  The draws that give a color make up an interval as long as the color is
likely, and a greater draw gives no earlier color. -/
theorem sample_inverts_cumulative (hp : ∀ c, 0 ≤ p.get c) (hsum : ∑ c, p.get c = 1) :
    (∀ r ∈ Set.Ico (0 : ℚ) 1,
      0 < p.get (sample p r) ∧ ∀ c, sample p r = c ↔ FallsTo p r c) ∧
      (∀ c, IsInterval (draws p c) (massBefore p c) (massBefore p c + p.get c)) ∧
      MonotoneOn (fun r ↦ (sample p r).index) (Set.Ico 0 1) := by
  refine ⟨fun r hr ↦ ⟨?_, fun c ↦ sample_eq_iff hp hsum hr⟩, isInterval_draws hp hsum, ?_⟩
  · exact (fallsTo_sample hp hsum hr).pos
  · intro r₁ hr₁ r₂ hr₂ hle
    have h₁ := fallsTo_sample hp hsum hr₁
    have h₂ := fallsTo_sample hp hsum hr₂
    exact h₁.index_le hp h₂ hle

/-- Red and yellow are equally likely, green and blue are not drawn at all. -/
def redOrYellow : ByColor ℚ :=
  ⟨0, 1 / 2, 0, 1 / 2⟩

/-- Red is given by zero and by the end of its interval. -/
theorem sample_inverts_cumulative_redOrYellow :
    (∀ c, 0 ≤ redOrYellow.get c) ∧ ∑ c, redOrYellow.get c = 1 ∧
      sample redOrYellow 0 = .red ∧ sample redOrYellow (1 / 2) = .red ∧
      IsInterval (draws redOrYellow .yellow) (1 / 2) 1 := by
  have hp : ∀ c, 0 ≤ redOrYellow.get c := by
    intro c
    cases c <;> decide +kernel
  have hsum : ∑ c, redOrYellow.get c = 1 := by decide +kernel
  have hpos : 0 < redOrYellow.get .red := by decide +kernel
  have hred : massBefore redOrYellow .red = 0 := by decide +kernel
  have hyellow : massBefore redOrYellow .yellow = 1 / 2 := by decide +kernel
  have hend : massBefore redOrYellow .yellow + redOrYellow.get .yellow = 1 := by decide +kernel
  obtain ⟨hsample, hinterval, -⟩ := sample_inverts_cumulative hp hsum
  have hzero : FallsTo redOrYellow 0 .red := by
    refine ⟨hpos, .inr ⟨rfl, hred⟩, ?_⟩
    rw [hred, zero_add]
    exact hpos.le
  have hhalf : FallsTo redOrYellow (1 / 2) .red := by
    refine ⟨hpos, .inl ?_, ?_⟩
    · rw [hred]
      norm_num
    · rw [hred, zero_add]
      exact le_refl _
  have h := hinterval .yellow
  rw [hend, hyellow] at h
  exact ⟨hp, hsum, ((hsample 0 (by simp)).2 .red).mpr hzero,
    ((hsample (1 / 2) (by norm_num)).2 .red).mpr hhalf, h⟩

end Wheel

end LessonDeck
