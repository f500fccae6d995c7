import LessonDeck.Proofs.Wheel.Accepted
import LessonDeck.Proofs.Wheel.Fair
/-!
# What the projection gives

Weights are projected to a fair distribution.  The sharing comes to an end by itself, with a round
less than there are colors at most, and it shares out the whole unit, so that the last division by
the mass changes nothing.  The distribution keeps the bounds that so many colors can keep, follows
the order of the weights, is proportional to them between the bounds, and does not change when all
weights are multiplied by one factor.
-/

namespace LessonDeck

open Scalar

namespace Wheel

/-- What is told of probabilities holds up to a billionth. -/
def tolerance : ℚ :=
  1 / 1000000000

theorem three_epsilon_le_tolerance : 3 * epsilon ≤ tolerance := by
  norm_num [epsilon, tolerance]

/-! ## Bounds that so many colors can keep -/

theorem low_widened (b : Bounds ℚ) (n : ℕ) : (b.widened n).low = min b.low (1 / n) :=
  lesser_eq_min _ _

theorem high_widened (b : Bounds ℚ) (n : ℕ) : (b.widened n).high = max b.high (1 / n) :=
  greater_eq_max _ _

theorem low_widened_nonneg {b : Bounds ℚ} (hlow : 0 ≤ b.low) (n : ℕ) :
    0 ≤ (b.widened n).low := by
  rw [low_widened]
  exact le_min hlow (by positivity)

theorem low_widened_le_high (b : Bounds ℚ) (n : ℕ) : (b.widened n).low ≤ (b.widened n).high := by
  rw [low_widened, high_widened]
  exact (min_le_right _ _).trans (le_max_right _ _)

theorem low_widened_fits (b : Bounds ℚ) {n : ℕ} (hn : 0 < n) : (b.widened n).low * n ≤ 1 := by
  have hpos : (0 : ℚ) < n := Nat.cast_pos.mpr hn
  rw [low_widened, ← le_div_iff₀ hpos]
  exact min_le_right _ _

theorem high_widened_fills (b : Bounds ℚ) {n : ℕ} (hn : 0 < n) : 1 ≤ (b.widened n).high * n := by
  have hpos : (0 : ℚ) < n := Nat.cast_pos.mpr hn
  rw [high_widened, ← div_le_iff₀ hpos]
  exact le_max_right _ _

/-! ## The whole of the sharing -/

namespace Sharing

variable {weights : ByColor ℚ} {b : Bounds ℚ} {colors : List Color}

theorem among_spec (weights : ByColor ℚ) (hlow : 0 ≤ b.low) (hnodup : colors.Nodup)
    (hcolors : colors ≠ []) :
    Fair weights (b.widened colors.length) colors (among weights b colors).share ∧
      (among weights b colors).rounds < colors.length ∧
      ∀ c ∈ colors, ((among weights b colors).pinned.get c).isSome = true := by
  have hpos : 0 < colors.length := List.length_pos_iff.mpr hcolors
  have hstart := Levelled.start weights hnodup
    (low_widened_nonneg hlow colors.length) (low_widened_fits b hpos) (high_widened_fills b hpos)
  obtain ⟨left, t, bottom, top, h, hleft, hnoneLow, hnoneHigh, hrounds, hdone⟩ :=
    hstart.exists_done hcolors (le_refl _)
  have hstarted : (start : Sharing ℚ).rounds = 0 := rfl
  have hleftLength : 0 < left.length := List.length_pos_iff.mpr hleft
  rw [among, hdone]
  refine ⟨h.fair_of_done (low_widened_nonneg hlow _) (low_widened_le_high b _) hleft hnoneLow
    hnoneHigh, ?_, fun c hc ↦ ?_⟩
  · change t.rounds < colors.length
    omega
  · change ((t.pin left _).get c).isSome = true
    rw [get_pin]
    split
    · rfl
    · next hfree =>
      obtain ⟨x, hx, -⟩ := h.get_pinned c hc hfree
      rw [hx]
      rfl

theorem mass_among (weights : ByColor ℚ) (hlow : 0 ≤ b.low) (hnodup : colors.Nodup)
    (hcolors : colors ≠ []) : (among weights b colors).mass = 1 := by
  rw [mass_eq_sum]
  exact (among_spec weights hlow hnodup hcolors).1.sum_eq_one

end Sharing

variable {weights : ByColor ℚ} {b : Bounds ℚ} {skipZero : Bool}

theorem nodup_active (weights : ByColor ℚ) (skipZero : Bool) : (active weights skipZero).Nodup :=
  List.Nodup.filter _ (by decide)

theorem mem_active_false (weights : ByColor ℚ) (c : Color) : c ∈ active weights false :=
  List.mem_filter.mpr ⟨mem_all c, rfl⟩

theorem active_ne_nil (hsome : skipZero = true → ∃ c, 0 < weights.get c) :
    active weights skipZero ≠ [] := by
  cases skipZero with
  | true =>
      obtain ⟨c, hc⟩ := hsome rfl
      exact List.ne_nil_of_mem (mem_active_iff.mpr hc)
  | false => exact List.ne_nil_of_mem (mem_active_false weights .green)

/-- Since all is shared out, dividing by the mass changes nothing. -/
theorem get_project (hlow : 0 ≤ b.low) (hactive : active weights skipZero ≠ []) (c : Color) :
    (project weights b skipZero).get c =
      (Sharing.among weights b (active weights skipZero)).share c := by
  have hmass := Sharing.mass_among weights hlow (nodup_active weights skipZero) hactive
  rw [project, if_neg (by simpa using hactive), ByColor.get_tabulate, hmass, if_pos one_pos,
    div_one]
  rfl

theorem fair_project (hlow : 0 ≤ b.low) (hactive : active weights skipZero ≠ []) :
    Fair weights (b.widened (active weights skipZero).length) (active weights skipZero)
      (project weights b skipZero).get := by
  have hget : (project weights b skipZero).get =
      (Sharing.among weights b (active weights skipZero)).share :=
    funext (get_project hlow hactive)
  rw [hget]
  exact (Sharing.among_spec weights hlow (nodup_active weights skipZero) hactive).1

/-- A color that loses weight while no other color does is no likelier than before, as long as the
same colors take part. -/
theorem get_project_le_of_lighter {lighter : ByColor ℚ} (hlow : 0 ≤ b.low) {c : Color}
    (hactive : active lighter skipZero = active weights skipZero) (hc : c ∈ active weights skipZero)
    (hlighter : weight lighter c ≤ weight weights c)
    (hothers : ∀ d, d ≠ c → weight weights d ≤ weight lighter d) :
    (project lighter b skipZero).get c ≤ (project weights b skipZero).get c + tolerance := by
  have hfair := fair_project (b := b) hlow (List.ne_nil_of_mem hc)
  have hfair' := fair_project (b := b) hlow (List.ne_nil_of_mem (hactive ▸ hc))
  rw [hactive] at hfair'
  exact (hfair.le_of_lighter hfair' hc hlighter hothers).trans
    (add_le_add_right three_epsilon_le_tolerance _)

/-- Weights of which the first is so heavy that it is pinned, and the lightest after it. -/
def topHeavy : ByColor ℚ :=
  ⟨9 / 10, 1 / 20, 3 / 100, 1 / 50⟩

theorem weight_map_mul {k : ℚ} (hk : 0 < k) (weights : ByColor ℚ) (c : Color) :
    weight (weights.map (k * ·)) c = k * weight weights c := by
  rw [weight, weight, ByColor.get_map, positivePart_eq_max, positivePart_eq_max,
    mul_max_of_nonneg _ _ hk.le, mul_zero]

theorem active_map_mul {k : ℚ} (hk : 0 < k) (weights : ByColor ℚ) (skipZero : Bool) :
    active (weights.map (k * ·)) skipZero = active weights skipZero := by
  simp only [active, weight_map_mul hk, mul_pos_iff_of_pos_left hk]

namespace Sharing

theorem proposal_map_mul {k : ℚ} (hk : 0 < k) (weights : ByColor ℚ) (s : Sharing ℚ)
    (free : List Color) (c : Color) :
    s.proposal (weights.map (k * ·)) free c = s.proposal weights free c := by
  have htotal : sumOf (weight (weights.map (k * ·))) free = k * sumOf (weight weights) free := by
    rw [sumOf_eq_sum, sumOf_eq_sum, ← List.sum_map_mul_left]
    exact congrArg List.sum (List.map_congr_left fun d _ ↦ weight_map_mul hk weights d)
  rw [proposal, proposal, htotal, weight_map_mul hk]
  refine if_congr (mul_pos_iff_of_pos_left hk) ?_ rfl
  rw [mul_left_comm, mul_div_mul_left _ _ hk.ne']

/-- Sharing depends on the weights through the proposals only. -/
theorem settle_congr {weights weights' : ByColor ℚ}
    (h : ∀ (s : Sharing ℚ) free c, s.proposal weights free c = s.proposal weights' free c)
    (b : Bounds ℚ) (rounds : ℕ) (free : List Color) (s : Sharing ℚ) :
    settle weights b rounds free s = settle weights' b rounds free s := by
  have hproposal : ∀ (s : Sharing ℚ) free, s.proposal weights free = s.proposal weights' free :=
    fun s free ↦ funext (h s free)
  induction rounds generalizing free s with
  | zero => rfl
  | succ rounds ih => simp only [settle, hproposal, ih]

end Sharing

theorem project_map_mul {k : ℚ} (hk : 0 < k) (weights : ByColor ℚ) (b : Bounds ℚ)
    (skipZero : Bool) : project (weights.map (k * ·)) b skipZero = project weights b skipZero := by
  have hamong : ∀ colors, Sharing.among (weights.map (k * ·)) b colors =
      Sharing.among weights b colors :=
    fun colors ↦ Sharing.settle_congr (Sharing.proposal_map_mul hk weights) _ _ _ _
  rw [project, project, active_map_mul hk]
  dsimp only
  rw [hamong]

/-- Colors that take part are as likely as the order of their weights says, and in proportion to
their weights where they lie strictly between the bounds.  A common factor of the weights does not
count. -/
theorem project_faithful (hweights : ∀ c, 0 ≤ weights.get c) (hb : checkBounds b = .ok ())
    (skipZero : Bool) :
    let colors := active weights skipZero
    let wide := b.widened colors.length
    let p := project weights b skipZero
    (∀ a ∈ colors, ∀ c ∈ colors,
      (weights.get a ≤ weights.get c → p.get a ≤ p.get c + tolerance) ∧
      (wide.low < p.get a → p.get a < wide.high → wide.low < p.get c → p.get c < wide.high →
        p.get a * weights.get c = p.get c * weights.get a)) ∧
    ∀ k : ℚ, 0 < k → project (weights.map (k * ·)) b skipZero = p := by
  intro colors wide p
  have hlow : 0 ≤ b.low := (checkBounds_eq_ok_iff.mp hb).low_nonneg
  have hweight : ∀ c, weight weights c = weights.get c := by
    intro c
    rw [weight, positivePart_eq_max, max_eq_left (hweights c)]
  refine ⟨fun a ha c hc ↦ ?_, fun k hk ↦ project_map_mul hk weights b skipZero⟩
  have hfair : Fair weights wide colors p.get := fair_project hlow (List.ne_nil_of_mem ha)
  constructor
  · intro hle
    have := hfair.le_of_weight_le ha hc (by rwa [hweight, hweight])
    have := three_epsilon_le_tolerance
    have := epsilon_pos
    linarith
  · intro halow hahigh hclow hchigh
    have := hfair.mul_comm_of_inside ha hc halow hahigh hclow hchigh
    rwa [hweight, hweight] at this

/-- Red and blue share in proportion to their weights while green and yellow are pinned. -/
theorem project_faithful_topHeavy :
    (∀ c, 0 ≤ topHeavy.get c) ∧ checkBounds (⟨3 / 25, 1 / 2⟩ : Bounds ℚ) = .ok () ∧
      (project topHeavy ⟨3 / 25, 1 / 2⟩ false).get .red * (3 / 100) =
        (project topHeavy ⟨3 / 25, 1 / 2⟩ false).get .blue * (1 / 20) := by
  have hweights : ∀ c, 0 ≤ topHeavy.get c := by
    intro c
    cases c <;> decide +kernel
  have hb : checkBounds (⟨3 / 25, 1 / 2⟩ : Bounds ℚ) = .ok () := by decide +kernel
  have hred := mem_active_false topHeavy .red
  have hblue := mem_active_false topHeavy .blue
  refine ⟨hweights, hb, ?_⟩
  exact ((project_faithful hweights hb false).1 .red hred .blue hblue).2
    (by decide +kernel) (by decide +kernel) (by decide +kernel) (by decide +kernel)

end Wheel

end LessonDeck
