import LessonDeck.Proofs.Machine.Exchange
import LessonDeck.Proofs.Session.Portable
import LessonDeck.Proofs.Wheel.Exchange
/-!
# One session is told to another

A session exports its variables, its journal and the figures of its wheel as one text.  Any session
can read this text and take over the variables and the journal, each value of which is in range
already, so that nothing is clamped.  What else the other session holds stays as it is.
-/

namespace LessonDeck

open Json

namespace Bundle

theorem reread_toJson (b : Bundle) :
    b.toJson.reread = .object [("variables", b.vars.toJson), ("log", journalJson b.journal),
      ("wheelStats", b.wheelStats.toJson.reread), ("timestamp", b.time.toJson)] := by
  have htime : b.time.toJson.reread = b.time.toJson := rfl
  rw [toJson, reread, rereadMembers, rereadMembers, rereadMembers, rereadMembers, rereadMembers,
    b.vars.reread_toJson, reread_journalJson, htime]

/-- A bundle is read from its text as soon as the figures of the wheel are. -/
theorem ofText?_text {b : Bundle} {stats : WheelStats}
    (hstats : WheelStats.ofJson? b.wheelStats.toJson.reread = some stats)
    (htimes : ∀ e ∈ b.journal.toList, e.time.OnClock) (htime : b.time.OnClock) :
    ofText? b.text = some { b with wheelStats := stats } := by
  rw [ofText?, text, parse?_pretty, b.reread_toJson]
  simp [ofJson?, fields?, readAll?, onlyMember?, Variables.ofJson?_toJson,
    journalOfJson?_journalJson htimes, hstats, Instant.ofJson?_toJson htime]

end Bundle

namespace Session

variable {s : Session} {time : Instant}

/-- What a session exports is read from its text, but for the probabilities of the wheel, of which
nothing is said. -/
theorem Portable.exists_bundle (h : s.Portable) (htime : time.OnClock) :
    ∃ stats : WheelStats, stats.Tells s.wheel ∧
      Bundle.ofText? (s.exportBundle time).text = some ⟨s.vars, s.journal, stats, time⟩ := by
  obtain ⟨stats, hstats, htells⟩ := h.wheel.exists_stats
  exact ⟨stats, htells, Bundle.ofText?_text hstats h.times htime⟩

/-- A campaign with a round left records a color when it is spun. -/
theorem exists_wheel_spin {w : Campaign Float} (hw : s.wheel = .campaign w)
    (hrun : w.isFinished = false) (time : Instant) :
    ∃ c, (s.spin time).2.wheel = .campaign (w.record c) := by
  refine ⟨(w.spun s.wheelDraws.nextUnit.1).color, ?_⟩
  rw [spin_eq, hw]
  change SessionWheel.campaign (w.spinFrom Draw.Source.nextUnit s.wheelDraws).2.1 = _
  rw [Campaign.spinFrom_eq, Campaign.spin_eq_filled, Campaign.filled_of_running hrun]

/-- Variables that are in range are taken over as they are. -/
theorem importBundle_of_inRange (other : Session) {b : Bundle} (h : b.vars.InRange) :
    other.importBundle b =
      { other with machine := { other.machine with vars := b.vars, journal := b.journal } } := by
  rw [importBundle, Machine.restore, Variables.clamped_of_inRange h]

/-- However a session has come to its state, what it exports can be read, and holds its variables,
its journal and the figures of its wheel, of the same kind.  Another session, in whatever state, that
takes this over has the variables and the journal, and is unchanged otherwise. -/
theorem exported_state_is_taken_over {settings : SessionSettings} {otherSeed : UInt64}
    {start : Session} (h : create settings otherSeed = .ok start) (hwords : settings.wheel.InWords)
    {ops : List Operation} (hops : ∀ op ∈ ops, op.OnClock) (htime : time.OnClock)
    (other : Session) :
    let s := start.performAll ops
    ∃ b, Bundle.ofText? (s.exportBundle time).text = some b ∧
      b.vars = s.vars ∧ b.journal = s.journal ∧ b.time = time ∧ b.wheelStats.Tells s.wheel ∧
      (other.importBundle b).vars = s.vars ∧ (other.importBundle b).journal = s.journal ∧
      other.importBundle b =
        { other with machine := { other.machine with vars := s.vars, journal := s.journal } } := by
  intro s
  have hportable : s.Portable := (Portable.create h hwords).performAll hops
  obtain ⟨stats, htells, hread⟩ := hportable.exists_bundle htime
  have htold := other.importBundle_of_inRange (b := ⟨s.vars, s.journal, stats, time⟩) hportable.vars
  refine ⟨_, hread, rfl, rfl, rfl, htells, ?_, rfl, htold⟩
  rw [htold]
  rfl

/-- A campaign that has been spun once, and a name with a quote in it, written by hand with a number
beyond the range; a session with an adaptive wheel takes this over. -/
theorem exported_state_is_taken_over_campaign :
    let settings : SessionSettings := ⟨4, .campaign .standard, none⟩
    let ops : List Operation := [.spin .epoch,
      .setVariables (fun _ ↦ .epoch) (Variables.empty.bind "say \"é\"" (some 5000000000))]
    let other : Session := ⟨1, Machine.new 9, .adaptive (.ofSettings .standard), .ofSeed 7 0,
      .ofSeed 7 1⟩
    ∃ start b figures c, create settings 7 = .ok start ∧
      Bundle.ofText? ((start.performAll ops).exportBundle .epoch).text = some b ∧
      b.wheelStats = .campaign figures ∧ figures.currentRound = 1 ∧
      figures.remainingRounds = 14 ∧ figures.rareTarget = 3 ∧ figures.history = [c] ∧
      figures.colorCounts.get c = some 1 ∧
      (other.importBundle b).vars.value? "say \"é\"" = some 1000000000 ∧
      (other.importBundle b).level = 1 := by
  intro settings ops other
  have hcreate : (create settings 7).isOk = true := by decide +kernel
  have hepoch : Instant.epoch.OnClock := ⟨by decide +kernel, .inl (by decide)⟩
  have hwords : settings.wheel.InWords := by
    change 15 < 2 ^ 32
    norm_num
  have hops : ∀ op ∈ ops, op.OnClock := by
    simpa [ops, Operation.OnClock] using hepoch
  cases hstart : create settings 7 with
  | error e =>
      rw [hstart] at hcreate
      exact nomatch hcreate
  | ok start =>
      obtain ⟨b, hread, -, -, -, htells, hvars, -, htold⟩ :=
        exported_state_is_taken_over hstart hwords hops hepoch other
      have hcreated : (Campaign.create .standard).map .campaign = .ok start.wheel :=
        wheel_of_create hstart
      obtain ⟨w, hw, hcampaign⟩ := map_eq_ok_iff.mp hcreated
      obtain ⟨-, rfl⟩ := Campaign.create_eq_ok_iff.mp hw
      obtain ⟨c, hspin⟩ := exists_wheel_spin hcampaign.symm rfl .epoch
      have hwheel : (start.performAll ops).wheel =
          .campaign ((Campaign.ofSettings .standard).record c) := hspin
      rw [hwheel] at htells
      obtain ⟨_, _, figures⟩ := b
      cases htells with
      | @campaign figures _ h =>
          refine ⟨start, _, figures, c, rfl, hread, rfl, h.currentRound, h.remainingRounds,
            h.rareTarget, h.history, ?_, ?_, ?_⟩
          · rw [h.colorCounts]
            exact congrArg some List.count_singleton_self
          · have hturns : (Operation.spin .epoch).turnsWheel = true := rfl
            have hside := tableSide_perform_of_turnsWheel hturns start
            have hspun : (start.perform (.spin .epoch)).2.vars = Variables.fresh := by
              refine (congrArg (fun side ↦ side.2.1.vars) hside).trans ?_
              exact congrArg Machine.vars (machine_of_create hstart)
            rw [hvars]
            change ((start.perform (.spin .epoch)).2.vars.write "say \"é\"" (some 5000000000)).value?
              "say \"é\"" = some 1000000000
            rw [hspun]
            decide +kernel
          · rw [htold]

end Session

end LessonDeck
