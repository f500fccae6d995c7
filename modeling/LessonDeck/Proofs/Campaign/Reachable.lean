import LessonDeck.Proofs.Campaign.Rules
/-!
# The states of a campaign

A campaign begins with accepted settings.  It goes on by spins with draws from the half-open unit
interval, by colors set by hand, and by resets to other lengths.  A spin and a color set by hand ask
for a round in the same way: it is filled if one is left, and nothing happens else.  Whatever the
order, the counters agree with the history, and the figures with both.
-/

namespace LessonDeck

namespace Campaign

variable {α : Type}

theorem isFinished_iff {w : Campaign α} :
    w.isFinished = true ↔ w.settings.totalRounds ≤ w.round := by
  rw [isFinished, decide_eq_true_iff]

theorem isFinished_eq_false_iff {w : Campaign α} :
    w.isFinished = false ↔ w.round < w.settings.totalRounds := by
  rw [← not_le, ← isFinished_iff, Bool.not_eq_true]

/-! ## Rounds that are asked for -/

/-- What comes of asking for a round: it is filled while one is left, and nothing happens else. -/
def filled (w : Campaign α) (spin : CampaignSpin α) :
    Except (WheelError α) (CampaignSpin α) × Campaign α :=
  if w.isFinished then (.error (.campaignFinished w.settings.totalRounds), w)
  else (.ok spin, w.record spin.color)

theorem filled_of_running {w : Campaign α} (hrun : w.isFinished = false) (spin : CampaignSpin α) :
    w.filled spin = (.ok spin, w.record spin.color) := by
  rw [filled, hrun]
  rfl

theorem filled_of_isFinished {w : Campaign α} (h : w.isFinished = true) (spin : CampaignSpin α) :
    w.filled spin = (.error (.campaignFinished w.settings.totalRounds), w) :=
  if_pos h

theorem filled_eq_ok_iff {w after : Campaign α} {spin result : CampaignSpin α} :
    w.filled spin = (.ok result, after) ↔
      w.isFinished = false ∧ after = w.record spin.color ∧ result = spin := by
  cases h : w.isFinished with
  | true => simp [filled_of_isFinished h]
  | false => simp [filled_of_running h, and_comm, eq_comm]

theorem of_filled_eq_error {w after : Campaign α} {spin : CampaignSpin α} {e : WheelError α}
    (h : w.filled spin = (.error e, after)) : w.isFinished = true ∧ after = w := by
  cases hdone : w.isFinished with
  | true =>
      rw [filled_of_isFinished hdone] at h
      exact ⟨rfl, (Prod.mk.inj h).2.symm⟩
  | false => simp [filled_of_running hdone] at h

/-- A round is filled exactly if one is left. -/
theorem exists_filled_iff {w : Campaign α} (spin : CampaignSpin α) :
    (∃ result, (w.filled spin).1 = .ok result) ↔ w.round < w.settings.totalRounds := by
  rw [← isFinished_eq_false_iff]
  cases h : w.isFinished with
  | true => simp [filled_of_isFinished h]
  | false => simp [filled_of_running h]

theorem force_eq_filled (w : Campaign α) (c : Color) :
    w.force c = w.filled ⟨c, .manual, w.round + 1, none⟩ := by
  rw [force, ensureRunning, filled]
  cases w.isFinished <;> rfl

theorem force_eq_ok_iff {w after : Campaign α} {c : Color} {result : CampaignSpin α} :
    w.force c = (.ok result, after) ↔ w.isFinished = false ∧
      after = w.record c ∧ result = ⟨c, .manual, w.round + 1, none⟩ := by
  rw [force_eq_filled, filled_eq_ok_iff]

theorem of_forceNamed_eq_error {w after : Campaign α} {name : String} {e : WheelError α}
    (h : w.forceNamed name = (.error e, after)) : after = w := by
  rw [forceNamed] at h
  cases hname : Color.recognize name with
  | error unknown =>
      rw [hname] at h
      exact (Prod.mk.inj h).2.symm
  | ok c =>
      simp only [hname, force_eq_filled] at h
      exact (of_filled_eq_error h).2

/-! ## The counters -/

/-- The counters of a campaign agree with its history and its settings, which differ from those it
began with in the number of rounds only. -/
structure InStep (s : CampaignSettings α) (w : Campaign α) : Prop where
  settings : w.settings = { s with totalRounds := w.settings.totalRounds }
  round : w.round = w.history.length
  round_le : w.round ≤ w.settings.totalRounds
  rareCount : w.rareCount = w.history.count .yellow
  rareTarget : w.rareTarget = LessonDeck.rareTarget w.settings.totalRounds

theorem InStep.ofSettings {s t : CampaignSettings α}
    (h : t = { s with totalRounds := t.totalRounds }) : InStep s (ofSettings t) where
  settings := h
  round := rfl
  round_le := Nat.zero_le _
  rareCount := rfl
  rareTarget := rfl

theorem InStep.record {s : CampaignSettings α} {w : Campaign α} (h : InStep s w)
    (hrun : w.isFinished = false) (c : Color) : InStep s (w.record c) where
  settings := h.settings
  round := by
    change w.round + 1 = (w.history ++ [c]).length
    rw [h.round, List.length_append, List.length_singleton]
  round_le := isFinished_eq_false_iff.mp hrun
  rareCount := by
    change (if c = .yellow then w.rareCount + 1 else w.rareCount) = (w.history ++ [c]).count .yellow
    rw [List.count_append, List.count_singleton, h.rareCount]
    by_cases hc : c = .yellow <;> simp [hc]
  rareTarget := h.rareTarget

/-! ## The figures -/

end Campaign

/-- The figures are those of a campaign: its counters and what is left of them, and its history. -/
structure CampaignStats.Tells {α : Type} (s : CampaignStats) (w : Campaign α) : Prop where
  currentRound : s.currentRound = w.round
  totalRounds : s.totalRounds = w.settings.totalRounds
  remainingRounds : s.remainingRounds = w.settings.totalRounds - w.round
  rareCount : s.rareCount = w.rareCount
  rareTarget : s.rareTarget = w.rareTarget
  rareDeficit : s.rareDeficit = w.rareTarget - w.rareCount
  colorCounts : ∀ c, s.colorCounts.get c = some (w.history.count c)
  history : s.history = w.history

namespace Campaign

variable {α : Type}

theorem tells_stats (w : Campaign α) : w.stats.Tells w where
  currentRound := rfl
  totalRounds := rfl
  remainingRounds := rfl
  rareCount := rfl
  rareTarget := rfl
  rareDeficit := rfl
  colorCounts := ByColor.get_tabulate _
  history := rfl

/-! ## Runs -/

variable [Scalar α]

/-- The states that a campaign with these settings can come to. -/
inductive Reachable (s : CampaignSettings α) : Campaign α → Prop where
  | create {w : Campaign α} (h : create s = .ok w) : Reachable s w
  | spin {w after : Campaign α} {r : α} {result : CampaignSpin α} (hw : Reachable s w)
      (hr : 0 ≤ r ∧ r < 1) (h : w.spin r = (.ok result, after)) : Reachable s after
  | force {w after : Campaign α} {c : Color} {result : CampaignSpin α} (hw : Reachable s w)
      (h : w.force c = (.ok result, after)) : Reachable s after
  | reset {w : Campaign α} (hw : Reachable s w) (rounds : ℕ) : Reachable s (w.reset rounds)

theorem create_eq_ok_iff {s : CampaignSettings α} {w : Campaign α} :
    create s = .ok w ↔ s.check = .ok () ∧ w = ofSettings s := by
  rw [create]
  cases s.check with
  | error e => exact iff_of_false nofun fun h ↦ nomatch h.1
  | ok u => exact ⟨fun h ↦ ⟨rfl, (Except.ok.inj h).symm⟩, fun h ↦ h.2 ▸ rfl⟩

theorem probabilities_eq_ok_iff {w : Campaign α} {p : ByColor α} :
    w.probabilities = .ok p ↔ w.isFinished = false ∧ w.plan.probabilities = p := by
  rw [probabilities, ensureRunning]
  cases w.isFinished with
  | true => exact iff_of_false nofun fun h ↦ nomatch h.1
  | false => exact ⟨fun h ↦ ⟨rfl, Except.ok.inj h⟩, fun h ↦ h.2 ▸ rfl⟩

/-- What a spin with a draw comes to while a round is left. -/
def spun (w : Campaign α) (r : α) : CampaignSpin α :=
  let c := Wheel.sample w.plan.probabilities r
  ⟨c, reasonFor w.plan c, w.round + 1, some (w.plan.probabilities, r)⟩

theorem spin_eq_filled (w : Campaign α) (r : α) : w.spin r = w.filled (w.spun r) := by
  rw [spin, spinFrom, ensureRunning, filled]
  cases w.isFinished <;> rfl

/-- A spin from a source is a spin with its next draw.  The source goes on by this draw if a round is
left, and stays where it is if none is. -/
theorem spinFrom_eq {σ : Type} (w : Campaign α) (next : σ → α × σ) (source : σ) :
    w.spinFrom next source = ((w.spin (next source).1).1, (w.spin (next source).1).2,
      if w.isFinished then source else (next source).2) := by
  rw [spin_eq_filled, spinFrom, ensureRunning, filled]
  cases w.isFinished <;> rfl

/-- A spin takes place while rounds are left, and records the color that the draw picks. -/
theorem spin_eq_ok_iff {w after : Campaign α} {r : α} {result : CampaignSpin α} :
    w.spin r = (.ok result, after) ↔ w.isFinished = false ∧
      after = w.record (Wheel.sample w.plan.probabilities r) ∧ result = w.spun r := by
  rw [spin_eq_filled, filled_eq_ok_iff, spun]

theorem of_spin_eq_error {w after : Campaign α} {r : α} {e : WheelError α}
    (h : w.spin r = (.error e, after)) : w.isFinished = true ∧ after = w :=
  of_filled_eq_error (w.spin_eq_filled r ▸ h)

/-- A spin that is refused takes no draw. -/
theorem of_spinFrom_eq_error {σ : Type} {w after : Campaign α} {next : σ → α × σ}
    {source left : σ} {e : WheelError α} (h : w.spinFrom next source = (.error e, after, left)) :
    after = w ∧ left = source := by
  rw [spinFrom_eq] at h
  obtain ⟨hresult, hrest⟩ := Prod.mk.inj h
  obtain ⟨rfl, rfl⟩ := Prod.mk.inj hrest
  obtain ⟨hfinished, hsame⟩ := of_spin_eq_error (Prod.ext hresult rfl)
  exact ⟨hsame, if_pos hfinished⟩

theorem Reachable.record {s : CampaignSettings α} {w : Campaign α} (hw : Reachable s w)
    (hrun : w.isFinished = false) (c : Color) : Reachable s (w.record c) :=
  .force hw (force_eq_ok_iff.mpr ⟨hrun, rfl, rfl⟩)

theorem Reachable.inStep {s : CampaignSettings α} {w : Campaign α} (hw : Reachable s w) :
    InStep s w := by
  induction hw with
  | create h =>
      obtain ⟨-, rfl⟩ := create_eq_ok_iff.mp h
      exact .ofSettings rfl
  | spin _ _ h ih =>
      obtain ⟨hrun, rfl, -⟩ := spin_eq_ok_iff.mp h
      exact ih.record hrun _
  | force _ h ih =>
      obtain ⟨hrun, rfl, -⟩ := force_eq_ok_iff.mp h
      exact ih.record hrun _
  | @reset w _ rounds ih =>
      refine .ofSettings ?_
      change { w.settings with totalRounds := rounds } = { s with totalRounds := rounds }
      rw [ih.settings]

theorem Reachable.check_eq_ok {s : CampaignSettings α} {w : Campaign α} (hw : Reachable s w) :
    s.check = .ok () := by
  induction hw with
  | create h => exact (create_eq_ok_iff.mp h).1
  | spin _ _ _ ih => exact ih
  | force _ _ ih => exact ih
  | reset _ _ ih => exact ih

/-- The settings stay sound, since no check reads the number of rounds. -/
theorem Reachable.sound {s : CampaignSettings ℚ} {w : Campaign ℚ} (hw : Reachable s w) :
    w.settings.Sound := by
  have hs : s.Sound := CampaignSettings.check_eq_ok_iff.mp hw.check_eq_ok
  rw [hw.inStep.settings]
  exact ⟨hs.bounds, hs.weights, hs.shift, hs.penalty, hs.boost⟩

end Campaign

end LessonDeck
