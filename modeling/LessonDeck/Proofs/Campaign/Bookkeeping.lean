import LessonDeck.Proofs.Campaign.Reachable
/-!
# Bookkeeping

A run of a campaign is a list of moves: spins, colors set by hand, with their own names or with
those that somebody types, and new starts with other numbers of rounds.  The spins that are reported
since the last start are numbered from one on.  A move fills a round if it has a color and a round is
left, so that as many moves succeed as there are rounds, in whatever order they come.
-/

namespace LessonDeck

namespace Campaign

variable {α : Type}

/-! ## Runs -/

/-- What can be asked of a campaign. -/
inductive Move (α : Type) where
  | spin (r : α)
  | force (c : Color)
  | forceNamed (name : String)
  | reset (rounds : ℕ)

namespace Move

/-- Whether a move is one that fills a round as long as there is one left. -/
def fills : Move α → Bool
  | spin _ => true
  | force _ => true
  | forceNamed name => (Color.recognize name).isOk
  | reset _ => false

def restarts : Move α → Bool
  | reset _ => true
  | _ => false

/-- The number of rounds after a move. -/
def rounds (total : ℕ) : Move α → ℕ
  | reset rounds => rounds
  | _ => total

end Move

/-- A campaign with the spins that it has reported since its last start. -/
structure Run (α : Type) where
  campaign : Campaign α
  reported : List (CampaignSpin α)

variable [Scalar α]

namespace Run

/-- A run after a round was asked for: what was filled is reported. -/
def keep (run : Run α) : Except (WheelError α) (CampaignSpin α) × Campaign α → Run α
  | (.ok spin, after) => ⟨after, run.reported ++ [spin]⟩
  | (.error _, after) => ⟨after, run.reported⟩

def step (run : Run α) : Move α → Run α
  | .spin r => run.keep (run.campaign.spin r)
  | .force c => run.keep (run.campaign.force c)
  | .forceNamed name => run.keep (run.campaign.forceNamed name)
  | .reset rounds => ⟨run.campaign.reset rounds, []⟩

def playOn (run : Run α) (moves : List (Move α)) : Run α :=
  moves.foldl step run

end Run

def play (w : Campaign α) (moves : List (Move α)) : Run α :=
  Run.playOn ⟨w, []⟩ moves

/-! ## Which moves succeed -/

theorem exists_spin_iff {w : Campaign α} (r : α) :
    (∃ result, (w.spin r).1 = .ok result) ↔ w.round < w.settings.totalRounds := by
  rw [spin_eq_filled]
  exact exists_filled_iff _

omit [Scalar α] in
theorem exists_force_iff {w : Campaign α} (c : Color) :
    (∃ result, (w.force c).1 = .ok result) ↔ w.round < w.settings.totalRounds := by
  rw [force_eq_filled]
  exact exists_filled_iff _

omit [Scalar α] in
theorem exists_forceNamed_iff {w : Campaign α} (name : String) :
    (∃ result, (w.forceNamed name).1 = .ok result) ↔
      (∃ c, Color.recognize name = .ok c) ∧ w.round < w.settings.totalRounds := by
  rw [forceNamed]
  cases hname : Color.recognize name with
  | error e => simp
  | ok c => simpa using exists_force_iff c

namespace Run

/-- A move starts anew, asks for a round with the number that comes next, or has no color. -/
theorem step_eq (run : Run α) (move : Move α) :
    (∃ rounds, move = .reset rounds ∧ run.step move = ⟨run.campaign.reset rounds, []⟩) ∨
    (move.restarts = false ∧ move.fills = true ∧ ∃ spin : CampaignSpin α,
      spin.round = run.campaign.round + 1 ∧ run.step move = run.keep (run.campaign.filled spin)) ∨
    (move.restarts = false ∧ move.fills = false ∧ run.step move = run) := by
  have hforce : ∀ c, ∃ spin : CampaignSpin α, spin.round = run.campaign.round + 1 ∧
      run.keep (run.campaign.force c) = run.keep (run.campaign.filled spin) :=
    fun c ↦ ⟨_, rfl, congrArg run.keep (run.campaign.force_eq_filled c)⟩
  cases move with
  | reset rounds => exact .inl ⟨rounds, rfl, rfl⟩
  | spin r =>
      exact .inr (.inl ⟨rfl, rfl, run.campaign.spun r, rfl,
        congrArg run.keep (run.campaign.spin_eq_filled r)⟩)
  | force c => exact .inr (.inl ⟨rfl, rfl, hforce c⟩)
  | forceNamed name =>
      rw [step, forceNamed, Move.fills]
      cases Color.recognize name with
      | error e => exact .inr (.inr ⟨rfl, rfl, rfl⟩)
      | ok c => exact .inr (.inl ⟨rfl, rfl, hforce c⟩)

/-- What a move can do: start anew, fill a round with the number that comes next, or nothing. -/
theorem step_cases (run : Run α) (move : Move α) :
    (∃ rounds, move = .reset rounds ∧ run.step move = ⟨run.campaign.reset rounds, []⟩) ∨
    (move.restarts = false ∧ move.fills = true ∧ run.campaign.isFinished = false ∧
      ∃ spin : CampaignSpin α, spin.round = run.campaign.round + 1 ∧
        run.step move = ⟨run.campaign.record spin.color, run.reported ++ [spin]⟩) ∨
    (move.restarts = false ∧ (move.fills = false ∨ run.campaign.isFinished = true) ∧
      run.step move = run) := by
  obtain hstart | ⟨hmove, hfills, spin, hround, heq⟩ | ⟨hmove, hfills, heq⟩ := run.step_eq move
  · exact .inl hstart
  · refine .inr ?_
    cases hrun : run.campaign.isFinished with
    | true =>
        rw [filled_of_isFinished hrun] at heq
        exact .inr ⟨hmove, .inr rfl, heq⟩
    | false =>
        rw [filled_of_running hrun] at heq
        exact .inl ⟨hmove, hfills, rfl, spin, hround, heq⟩
  · exact .inr (.inr ⟨hmove, .inl hfills, heq⟩)

/-! ## What every move keeps -/

/-- The counters agree with the history, and the reports are numbered from one on. -/
structure Ordered (s : CampaignSettings α) (run : Run α) : Prop where
  inStep : InStep s run.campaign
  rounds : run.reported.map CampaignSpin.round = List.range' 1 run.campaign.round

namespace Ordered

variable {s : CampaignSettings α} {run : Run α}

omit [Scalar α] in
theorem length_reported (h : Ordered s run) : run.reported.length = run.campaign.round := by
  have hlength := congrArg List.length h.rounds
  rwa [List.length_map, List.length_range'] at hlength

theorem step (h : Ordered s run) (move : Move α) : Ordered s (run.step move) := by
  obtain ⟨rounds, -, heq⟩ | ⟨-, -, hrun, spin, hround, heq⟩ | ⟨-, -, heq⟩ :=
    run.step_cases move
  · rw [heq]
    refine ⟨.ofSettings ?_, rfl⟩
    rw [h.inStep.settings]
  · rw [heq]
    refine ⟨h.inStep.record hrun spin.color, ?_⟩
    change (run.reported ++ [spin]).map CampaignSpin.round = List.range' 1 (run.campaign.round + 1)
    rw [List.map_append, h.rounds, List.range'_concat, List.map_singleton, hround,
      Nat.one_mul, Nat.add_comm]
  · rwa [heq]

theorem playOn (h : Ordered s run) (moves : List (Move α)) : Ordered s (run.playOn moves) := by
  induction moves generalizing run with
  | nil => exact h
  | cons move moves ih => exact ih (h.step move)

/-- As many moves succeed as have a color and find a round left. -/
theorem length_playOn (h : Ordered s run) {moves : List (Move α)}
    (hmoves : ∀ move ∈ moves, move.restarts = false) :
    (run.playOn moves).reported.length =
      min (run.campaign.round + moves.countP Move.fills) run.campaign.settings.totalRounds := by
  induction moves generalizing run with
  | nil =>
      have hle := h.inStep.round_le
      rw [Run.playOn, List.foldl_nil, h.length_reported, List.countP_nil, Nat.add_zero]
      omega
  | cons move moves ih =>
      obtain ⟨hmove, hrest⟩ := List.forall_mem_cons.mp hmoves
      have hnext := ih (h.step move) hrest
      change ((run.step move).playOn moves).reported.length = _
      rw [hnext]
      obtain ⟨rounds, rfl, -⟩ | ⟨-, hfills, hrun, spin, -, heq⟩ | ⟨-, hidle, heq⟩ :=
        run.step_cases move
      · exact nomatch hmove
      · have hround : (run.step move).campaign.round = run.campaign.round + 1 := by
          rw [heq]
          rfl
        have hsettings : (run.step move).campaign.settings = run.campaign.settings := by
          rw [heq]
          rfl
        rw [hround, hsettings, List.countP_cons_of_pos hfills]
        omega
      · rw [heq]
        obtain hfills | hdone := hidle
        · rw [List.countP_cons_of_neg (by simp [hfills])]
        · have hle := isFinished_iff.mp hdone
          omega

end Ordered

/-- Only a new start changes the number of rounds. -/
theorem totalRounds_playOn (run : Run α) (moves : List (Move α)) :
    (run.playOn moves).campaign.settings.totalRounds =
      moves.foldl Move.rounds run.campaign.settings.totalRounds := by
  induction moves generalizing run with
  | nil => rfl
  | cons move moves ih =>
      change ((run.step move).playOn moves).campaign.settings.totalRounds = _
      rw [ih, List.foldl_cons]
      congr 1
      obtain ⟨rounds, rfl, heq⟩ | ⟨hmove, -, -, spin, -, heq⟩ | ⟨hmove, -, heq⟩ :=
        run.step_cases move
      · rw [heq]
        rfl
      · rw [heq]
        cases move <;> first | rfl | exact nomatch hmove
      · rw [heq]
        cases move <;> first | rfl | exact nomatch hmove

end Run

omit [Scalar α] in
theorem foldl_rounds_lt {bound total : ℕ} (h : total < bound) {moves : List (Move α)}
    (hmoves : ∀ rounds, Move.reset rounds ∈ moves → rounds < bound) :
    moves.foldl Move.rounds total < bound := by
  induction moves generalizing total with
  | nil => exact h
  | cons move moves ih =>
      refine ih ?_ fun rounds hmem ↦ hmoves rounds (List.mem_cons_of_mem move hmem)
      cases move with
      | reset rounds => exact hmoves rounds List.mem_cons_self
      | _ => exact h

/-! ## The figures -/

/-- What holds of the figures of a campaign that began with these settings. -/
structure Balanced (s : CampaignStats) : Prop where
  remaining : s.currentRound + s.remainingRounds = s.totalRounds
  colors : (Color.all.map fun c ↦ (s.colorCounts.get c).getD 0).sum = s.currentRound
  target : s.rareTarget = LessonDeck.rareTarget s.totalRounds
  deficit : (s.rareDeficit : ℤ) = max 0 ((s.rareTarget : ℤ) - s.rareCount)

omit [Scalar α] in
theorem InStep.balanced {s : CampaignSettings α} {w : Campaign α} (h : InStep s w) :
    Balanced w.stats where
  remaining := Nat.add_sub_of_le h.round_le
  colors := by
    change (Color.all.map fun c ↦ (w.stats.colorCounts.get c).getD 0).sum = w.round
    rw [h.round, ← sum_count_history]
    simp [stats]
  target := h.rareTarget
  deficit := by
    change ((w.rareTarget - w.rareCount : ℕ) : ℤ) = max 0 ((w.rareTarget : ℤ) - w.rareCount)
    omega

/-- The books of a campaign balance after any moves, in whatever order.  The counters agree with the
history, the spins reported since the last start are numbered from one on without a gap, and a move
with a color succeeds exactly if a round is left; so that all rounds get filled, and no more.  The
counters stay within words of 32 bits if the numbers of rounds do.  The figures are those of the
campaign, and they balance. -/
theorem books_balance {s : CampaignSettings α} {w₀ : Campaign α} (h : create s = .ok w₀)
    (moves : List (Move α)) :
    let run := w₀.play moves
    let w := run.campaign
    w.settings = { s with totalRounds := moves.foldl Move.rounds s.totalRounds } ∧
    w.round = w.history.length ∧ w.round ≤ w.settings.totalRounds ∧
    w.rareCount = w.history.count .yellow ∧
    w.rareTarget = LessonDeck.rareTarget w.settings.totalRounds ∧
    run.reported.map CampaignSpin.round = List.range' 1 w.round ∧
    (∀ r, (∃ result, (w.spin r).1 = .ok result) ↔ w.round < w.settings.totalRounds) ∧
    (∀ c, (∃ result, (w.force c).1 = .ok result) ↔ w.round < w.settings.totalRounds) ∧
    (∀ name, (∃ result, (w.forceNamed name).1 = .ok result) ↔
      (∃ c, Color.recognize name = .ok c) ∧ w.round < w.settings.totalRounds) ∧
    (∀ more : List (Move α), (∀ move ∈ more, move.restarts = false) →
      (run.playOn more).reported.length =
        min (w.round + more.countP Move.fills) w.settings.totalRounds) ∧
    (s.totalRounds < UInt32.size → (∀ rounds, Move.reset rounds ∈ moves → rounds < UInt32.size) →
      w.settings.totalRounds < UInt32.size ∧
      (w.isFinished = false → w.round + 1 < UInt32.size ∧ w.rareCount + 1 < UInt32.size)) ∧
    w.stats.Tells w ∧ Balanced w.stats := by
  intro run w
  obtain ⟨-, rfl⟩ := create_eq_ok_iff.mp h
  have hstart : Run.Ordered s (⟨ofSettings s, []⟩ : Run α) := ⟨.ofSettings rfl, rfl⟩
  have hrun : Run.Ordered s run := hstart.playOn moves
  have hstep := hrun.inStep
  have htotal : w.settings.totalRounds = moves.foldl Move.rounds s.totalRounds :=
    Run.totalRounds_playOn _ moves
  refine ⟨htotal ▸ hstep.settings, hstep.round, hstep.round_le, hstep.rareCount, hstep.rareTarget,
    hrun.rounds, exists_spin_iff, exists_force_iff, exists_forceNamed_iff,
    fun more ↦ hrun.length_playOn, ?_, w.tells_stats, hstep.balanced⟩
  intro hs hmoves
  have hbound : w.settings.totalRounds < UInt32.size := htotal ▸ foldl_rounds_lt hs hmoves
  refine ⟨hbound, fun hopen ↦ ?_⟩
  have hround : w.round < w.settings.totalRounds := isFinished_eq_false_iff.mp hopen
  have hrare : w.rareCount ≤ w.round := by
    rw [hstep.rareCount, hstep.round]
    exact List.count_le_length
  omega

/-- Two rounds, and three colors set by hand and a name that is none: the third finds no round left,
and the figures are those of the other two. -/
theorem books_balance_twoRounds :
    let more : List (Move ℚ) :=
      [.force .yellow, .forceNamed "mauve", .forceNamed " Red ", .force .blue]
    ∃ w₀, create CampaignSettings.exactStandard = .ok w₀ ∧
      (w₀.play [.force .green, .reset 2]).campaign.round = 0 ∧
      ((w₀.play [.force .green, .reset 2]).playOn more).reported.length = 2 ∧
      let figures := (w₀.play (.force .green :: .reset 2 :: more)).campaign.stats
      figures.currentRound = 2 ∧ figures.remainingRounds = 0 ∧ figures.rareCount = 1 ∧
      figures.rareTarget = 1 ∧ figures.colorCounts.get .red = some 1 ∧
      figures.history = [.yellow, .red] := by
  intro more
  have hs : CampaignSettings.exactStandard.check = .ok () := by decide +kernel
  have hcreate := create_eq_ok_iff.mpr ⟨hs, rfl⟩
  obtain ⟨-, -, -, -, -, -, -, -, -, hmore, -⟩ := books_balance hcreate [.force .green, .reset 2]
  obtain ⟨-, -, -, -, -, -, -, -, -, -, -, htells, -⟩ :=
    books_balance hcreate (.force .green :: .reset 2 :: more)
  refine ⟨_, hcreate, rfl, ?_, htells.currentRound, htells.remainingRounds, htells.rareCount,
    htells.rareTarget.trans (by decide +kernel), (htells.colorCounts .red).trans rfl,
    htells.history⟩
  rw [hmore _ (by decide)]
  decide +kernel

end Campaign

end LessonDeck
