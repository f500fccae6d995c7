import LessonDeck.Proofs.Campaign.Reachable
import LessonDeck.Proofs.Result
import LessonDeck.Session.Basic
/-!
# Wheels that count in words

Rounds are counted in words of 32 bits, and remembered spins in words of 64.  A wheel that is made
from accepted settings within these words never counts beyond them: a campaign plays no more rounds
than it has, and an adaptive wheel forgets what it has no room for.
-/

namespace LessonDeck

/-! ## Campaigns -/

/-- The counters agree with the history, and the rounds can be counted. -/
structure Campaign.Counted (w : Campaign Float) : Prop where
  inStep : ∃ s, InStep s w
  totalRounds_lt : w.settings.totalRounds < 2 ^ 32

namespace Campaign.Counted

variable {w : Campaign Float}

theorem create {s : CampaignSettings Float} (h : Campaign.create s = .ok w)
    (hwords : s.totalRounds < 2 ^ 32) : w.Counted := by
  obtain ⟨-, rfl⟩ := create_eq_ok_iff.mp h
  exact ⟨⟨s, .ofSettings rfl⟩, hwords⟩

theorem record (h : w.Counted) (hrun : w.isFinished = false) (c : Color) :
    (w.record c).Counted := by
  obtain ⟨s, hstep⟩ := h.inStep
  exact ⟨⟨s, hstep.record hrun c⟩, h.totalRounds_lt⟩

theorem filled (h : w.Counted) (spin : CampaignSpin Float) : (w.filled spin).2.Counted := by
  cases hrun : w.isFinished with
  | true => rwa [filled_of_isFinished hrun]
  | false =>
      rw [filled_of_running hrun]
      exact h.record hrun spin.color

theorem spin (h : w.Counted) (r : Float) : (w.spin r).2.Counted := by
  rw [spin_eq_filled]
  exact h.filled _

theorem forceNamed (h : w.Counted) (name : String) : (w.forceNamed name).2.Counted := by
  rw [Campaign.forceNamed]
  cases Color.recognize name with
  | error e => exact h
  | ok c =>
      change (w.force c).2.Counted
      rw [force_eq_filled]
      exact h.filled _

theorem reset (h : w.Counted) : (w.reset w.settings.totalRounds).Counted :=
  ⟨⟨w.settings, .ofSettings rfl⟩, h.totalRounds_lt⟩

end Campaign.Counted

/-! ## Adaptive wheels -/

/-- The settings are accepted, and the spins that are remembered can be counted. -/
structure AdaptiveWheel.Counted (w : AdaptiveWheel Float) : Prop where
  check : w.settings.check = .ok ()
  length_le : w.history.length ≤ w.settings.maxHistory
  maxHistory_lt : w.settings.maxHistory < 2 ^ 64

namespace AdaptiveWheel.Counted

variable {w : AdaptiveWheel Float}

theorem create {s : AdaptiveSettings Float} (h : AdaptiveWheel.create s = .ok w)
    (hwords : s.maxHistory < 2 ^ 64) : w.Counted := by
  obtain ⟨⟨⟩, hcheck, hw⟩ := exists_of_bind_eq_ok h
  obtain rfl := Except.ok.inj hw
  exact ⟨hcheck, Nat.zero_le _, hwords⟩

theorem record (h : w.Counted) (c : Color) : (w.record c).Counted := by
  refine ⟨h.check, ?_, h.maxHistory_lt⟩
  change ((w.history ++ [c]).drop ((w.history ++ [c]).length - w.settings.maxHistory)).length ≤
    w.settings.maxHistory
  rw [List.length_drop]
  omega

theorem forceNamed (h : w.Counted) (name : String) : (w.forceNamed name).2.Counted := by
  rw [AdaptiveWheel.forceNamed]
  cases Color.recognize name with
  | error e => exact h
  | ok c => exact h.record c

theorem reset (h : w.Counted) : w.reset.Counted :=
  ⟨h.check, Nat.zero_le _, h.maxHistory_lt⟩

end AdaptiveWheel.Counted

/-! ## Either wheel -/

/-- The numbers of rounds, or of spins to remember, that fit into their words. -/
def WheelSettings.InWords : WheelSettings → Prop
  | adaptive s => s.maxHistory < 2 ^ 64
  | campaign s => s.totalRounds < 2 ^ 32

theorem SessionSettings.inWords_seededWheel {settings : SessionSettings}
    (h : settings.wheel.InWords) : settings.seededWheel.InWords := by
  rw [seededWheel]
  cases settings.seed with
  | none => exact h
  | some seed => cases hw : settings.wheel <;> rwa [hw] at h

inductive SessionWheel.Counted : SessionWheel → Prop where
  | adaptive {w : AdaptiveWheel Float} (h : w.Counted) : Counted (.adaptive w)
  | campaign {w : Campaign Float} (h : w.Counted) : Counted (.campaign w)

namespace SessionWheel.Counted

variable {w : SessionWheel}

theorem create {settings : WheelSettings} (h : SessionWheel.create settings = .ok w)
    (hwords : settings.InWords) : w.Counted := by
  cases settings with
  | adaptive s =>
      obtain ⟨made, hmade, rfl⟩ := map_eq_ok_iff.mp h
      exact .adaptive (.create hmade hwords)
  | campaign s =>
      obtain ⟨made, hmade, rfl⟩ := map_eq_ok_iff.mp h
      exact .campaign (.create hmade hwords)

theorem spin (h : w.Counted) (draws : Draw.Source) : (w.spin draws).2.1.Counted := by
  cases h with
  | adaptive h => exact .adaptive (h.record _)
  | @campaign w h =>
      refine .campaign ?_
      change (w.spinFrom Draw.Source.nextUnit draws).2.1.Counted
      rw [Campaign.spinFrom_eq]
      exact h.spin _

theorem forceNamed (h : w.Counted) (name : String) : (w.forceNamed name).2.Counted := by
  cases h with
  | adaptive h => exact .adaptive (h.forceNamed name)
  | campaign h => exact .campaign (h.forceNamed name)

theorem reset (h : w.Counted) : w.reset.Counted := by
  cases h with
  | adaptive h => exact .adaptive h.reset
  | campaign h => exact .campaign h.reset

end SessionWheel.Counted

end LessonDeck
