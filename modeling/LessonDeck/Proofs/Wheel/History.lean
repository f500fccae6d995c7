import LessonDeck.Proofs.Wheel.Adaptive
/-!
# What an adaptive wheel remembers

The colors that have come up since a wheel was last reset are put down in order, those of the wheel's
own spins and those set by hand.  The wheel remembers the latest of them, as many as it has room for.
It writes a color behind the others before it forgets the oldest, so that a wheel without any room
remembers nothing.  A move that is refused and a change of the base weights leave the history alone.
-/

namespace LessonDeck

namespace AdaptiveWheel

variable {α : Type}

/-! ## Moves and answers -/

/-- What can be asked of an adaptive wheel. -/
inductive Move (α : Type) where
  | spin (r : α)
  | force (c : Color)
  | forceNamed (name : String)
  | reset
  | updateBase (base : ByColor (Option α))

inductive Answer (α : Type) where
  | spun (result : AdaptiveSpin α)
  | forced (result : ForcedSpin)
  | refused (e : WheelError α)
  | done

/-- The color that came up, with the history that is told along with it. -/
def Answer.told? : Answer α → Option (Color × List Color)
  | spun result => some (result.color, result.history)
  | forced result => some (result.color, result.history)
  | _ => none

/-- A wheel with the colors that have come up since it was last reset. -/
structure Run (α : Type) where
  wheel : AdaptiveWheel α
  outcomes : List Color

/-- The colors since the last reset, after a move and its answer. -/
def Move.outcomes (before : List Color) (answer : Answer α) : Move α → List Color
  | reset => []
  | _ => before ++ (answer.told?.map Prod.fst).toList

theorem Move.outcomes_of_ne_reset {move : Move α} (h : move ≠ .reset) (before : List Color)
    (answer : Answer α) :
    move.outcomes before answer = before ++ (answer.told?.map Prod.fst).toList := by
  cases move with
  | reset => exact (h rfl).elim
  | _ => rfl

variable [Scalar α]

/-- A move with its answer, and the wheel after it. -/
def perform (w : AdaptiveWheel α) : Move α → Answer α × AdaptiveWheel α
  | .spin r => (.spun (w.spin r).1, (w.spin r).2)
  | .force c => (.forced (w.force c).1, (w.force c).2)
  | .forceNamed name =>
    match w.forceNamed name with
    | (.ok result, after) => (.forced result, after)
    | (.error e, after) => (.refused e, after)
  | .reset => (.done, w.reset)
  | .updateBase base =>
    match w.updateBase base with
    | (.ok (), after) => (.done, after)
    | (.error e, after) => (.refused e, after)

def Run.step (run : Run α) (move : Move α) : Run α :=
  ⟨(run.wheel.perform move).2, move.outcomes run.outcomes (run.wheel.perform move).1⟩

def play (w : AdaptiveWheel α) (moves : List (Move α)) : Run α :=
  moves.foldl Run.step ⟨w, []⟩

/-! ## What a move can do -/

/-- A move brings up a color, which is told with the history it has been recorded in, or starts the
history anew, or leaves history and room as they are. -/
theorem perform_cases (w : AdaptiveWheel α) (move : Move α) :
    (∃ c, move ≠ .reset ∧ (w.perform move).1.told? = some (c, (w.record c).history) ∧
      (w.perform move).2 = w.record c) ∨
    (move = .reset ∧ w.perform move = (.done, w.reset)) ∨
    (move ≠ .reset ∧ (w.perform move).1.told? = none ∧
      (w.perform move).2.history = w.history ∧
      (w.perform move).2.settings.maxHistory = w.settings.maxHistory) := by
  cases move with
  | spin r => exact .inl ⟨Wheel.sample w.probabilities r, nofun, rfl, rfl⟩
  | force c => exact .inl ⟨c, nofun, rfl, rfl⟩
  | forceNamed name =>
      rw [perform, forceNamed]
      cases Color.recognize name with
      | ok c => exact .inl ⟨c, nofun, rfl, rfl⟩
      | error e => exact .inr (.inr ⟨nofun, rfl, rfl, rfl⟩)
  | reset => exact .inr (.inl ⟨rfl, rfl⟩)
  | updateBase base =>
      refine .inr (.inr ⟨nofun, ?_⟩)
      rw [perform, updateBase]
      cases Wheel.checkWeights base with
      | error e => exact ⟨rfl, rfl, rfl⟩
      | ok _ => exact ⟨rfl, rfl, rfl⟩

/-! ## The latest colors -/

/-- A color behind the latest ones and a color behind all of them leave the same latest ones. -/
theorem rtake_rtake_concat (colors : List Color) (c : Color) (room : ℕ) :
    (colors.rtake room ++ [c]).rtake room = (colors ++ [c]).rtake room := by
  cases room with
  | zero => rw [List.rtake_zero, List.rtake_zero]
  | succ room =>
      have htake : (colors.rtake (room + 1)).rtake room = colors.rtake room := by
        rw [List.rtake_eq_reverse_take_reverse, List.rtake_eq_reverse_take_reverse,
          List.reverse_reverse, List.take_take, min_eq_left room.le_succ,
          ← List.rtake_eq_reverse_take_reverse]
      rw [List.rtake_concat_succ, List.rtake_concat_succ, htake]

/-- The wheel remembers the latest of the colors that have come up. -/
structure Run.UpToDate (room : ℕ) (run : Run α) : Prop where
  maxHistory : run.wheel.settings.maxHistory = room
  history : run.wheel.history = run.outcomes.rtake room

namespace Run.UpToDate

variable {room : ℕ} {run : Run α}

theorem step (h : run.UpToDate room) (move : Move α) : (run.step move).UpToDate room := by
  obtain ⟨c, hmove, htold, hafter⟩ | ⟨rfl, heq⟩ | ⟨hmove, htold, hhistory, hroom⟩ :=
    run.wheel.perform_cases move
  · have houtcomes : (run.step move).outcomes = run.outcomes ++ [c] := by
      rw [Run.step, Move.outcomes_of_ne_reset hmove, htold]
      rfl
    have hwheel : (run.step move).wheel = run.wheel.record c := hafter
    refine ⟨hwheel ▸ h.maxHistory, ?_⟩
    rw [hwheel, houtcomes]
    change (run.wheel.history ++ [c]).rtake run.wheel.settings.maxHistory = _
    rw [h.maxHistory, h.history, rtake_rtake_concat]
  · have hwheel : (run.step .reset).wheel = run.wheel.reset := congrArg Prod.snd heq
    refine ⟨hwheel ▸ h.maxHistory, ?_⟩
    rw [hwheel]
    exact (List.rtake_nil room).symm
  · have houtcomes : (run.step move).outcomes = run.outcomes := by
      rw [Run.step, Move.outcomes_of_ne_reset hmove, htold]
      exact List.append_nil _
    refine ⟨hroom.trans h.maxHistory, ?_⟩
    rw [houtcomes]
    exact hhistory.trans h.history

theorem foldl_step (h : run.UpToDate room) (moves : List (Move α)) :
    (moves.foldl Run.step run).UpToDate room := by
  induction moves generalizing run with
  | nil => exact h
  | cons move moves ih => exact ih (h.step move)

end Run.UpToDate

/-- After any moves, whether accepted or refused, an adaptive wheel remembers the latest colors that
came up since it was last reset, in order and as many as it has room for.  Its figures are those of
this history, and with each color that comes up the history after it is told. -/
theorem history_is_latest {s : AdaptiveSettings α} {w₀ : AdaptiveWheel α} (h : create s = .ok w₀)
    (moves : List (Move α)) :
    let run := w₀.play moves
    let w := run.wheel
    w.history = run.outcomes.rtake (min run.outcomes.length s.maxHistory) ∧
    w.stats.history = w.history ∧ w.stats.totalSpins = w.history.length ∧
    (∀ c, w.stats.counts.get c = some (w.history.count c)) ∧
    (Color.all.map fun c ↦ (w.stats.counts.get c).getD 0).sum = w.stats.totalSpins ∧
    ∀ move c told, (w.perform move).1.told? = some (c, told) →
      told = (w.perform move).2.history := by
  intro run w
  obtain ⟨-, rfl⟩ := create_eq_ok_iff.mp h
  have hstart : Run.UpToDate s.maxHistory (⟨ofSettings s, []⟩ : Run α) :=
    ⟨rfl, (List.rtake_nil s.maxHistory).symm⟩
  have hrun : run.UpToDate s.maxHistory := hstart.foldl_step moves
  have hcount : ∀ c, w.stats.counts.get c = some (w.history.count c) := by
    intro c
    rw [stats, ByColor.get_tabulate, count]
  refine ⟨?_, rfl, rfl, hcount, ?_, ?_⟩
  · rw [hrun.history, List.rtake, List.rtake]
    congr 1
    omega
  · simp only [hcount, Option.getD_some]
    exact sum_count_history w.history
  · intro move c told htold
    obtain ⟨d, -, hd, hafter⟩ | ⟨-, heq⟩ | ⟨-, hnone, -⟩ := w.perform_cases move
    · obtain ⟨-, rfl⟩ := Prod.mk.inj (Option.some.inj (hd.symm.trans htold))
      rw [hafter]
    · rw [heq] at htold
      cases htold
    · cases hnone.symm.trans htold

/-- Room for two colors, and three of them since the last reset, among moves that bring up none. -/
theorem history_is_latest_twoPlaces :
    ∃ w₀ : AdaptiveWheel ℚ,
      create { AdaptiveSettings.exactStandard with maxHistory := 2 } = .ok w₀ ∧
      let run := w₀.play [.force .blue, .reset, .force .green, .forceNamed "mauve",
        .updateBase (ByColor.const none), .forceNamed " Red ", .spin 0]
      run.outcomes = [.green, .red, .green] ∧ run.wheel.history = [.red, .green] := by
  have hcheck : AdaptiveSettings.check { AdaptiveSettings.exactStandard with maxHistory := 2 } =
      .ok () := by decide +kernel
  have hcreate := create_eq_ok_iff.mpr ⟨hcheck, rfl⟩
  refine ⟨_, hcreate, by decide +kernel, ?_⟩
  rw [(history_is_latest hcreate _).1]
  decide +kernel

end AdaptiveWheel

end LessonDeck
