import LessonDeck.Proofs.Command.Exchange
import LessonDeck.Proofs.Json.Decimal
import LessonDeck.Proofs.Wheel.Counted
import LessonDeck.Proofs.Wheel.Finite
import LessonDeck.Session.Json
/-!
# The figures of a wheel in exchange

The figures of either wheel come back from their text as figures of the same kind of wheel.  Rounds,
counts and the history are the same; probabilities come back as probabilities, but for how exactly
they are read nothing is said.  The two kinds are told apart by their fields alone.
-/

namespace LessonDeck

open Json Double

/-! ## Tables with an entry for each color -/

namespace ByColor

variable {α : Type} (write : α → Json) {f g : Color → α}

theorem reread_toJson (h : ∀ c, (write (f c)).reread = write (g c)) :
    (toJson write (tabulate fun c ↦ some (f c))).reread =
      toJson write (tabulate fun c ↦ some (g c)) := by
  simp [toJson, toList, Color.all, member?, reread, rereadMembers, h]

theorem ofJson?_toJson (read : Json → Option α) (h : ∀ c, read (write (f c)) = some (f c)) :
    ofJson? read (toJson write (tabulate fun c ↦ some (f c))) =
      some (tabulate fun c ↦ some (f c)) := by
  have hgreen : Color.ofName? Color.green.name = some .green := rfl
  have hred : Color.ofName? Color.red.name = some .red := rfl
  have hblue : Color.ofName? Color.blue.name = some .blue := rfl
  have hyellow : Color.ofName? Color.yellow.name = some .yellow := rfl
  simp [ofJson?, toJson, toList, Color.all, member?, table?, readAll?, h, hgreen, hred, hblue,
    hyellow]
  rfl

theorem fits_toJson (h : ∀ c room, (write (f c)).fits room = true) (room : ℕ) :
    (toJson write (tabulate fun c ↦ some (f c))).fits (room + 1) = true := by
  simp [toJson, toList, Color.all, member?, fits, membersFit, h]

end ByColor

theorem reread_colorsJson (cs : List Color) : (colorsJson cs).reread = colorsJson cs := by
  rw [colorsJson, reread, rereadItems_eq_map, List.map_map]
  rfl

theorem items?_colorsJson (cs : List Color) :
    (colorsJson cs).items? Color.ofJson? = some cs :=
  items?_map Color.ofJson?_toJson cs

theorem fits_colorsJson (cs : List Color) (room : ℕ) : (colorsJson cs).fits (room + 1) = true := by
  rw [colorsJson, fits]
  induction cs with
  | nil => rfl
  | cons c cs ih =>
      rw [List.map_cons, itemsFit, ih, Bool.and_true]
      cases room <;> rfl

theorem fits_nat (n room : ℕ) : (nat n).fits room = true := by
  cases room <;> rfl

theorem fits_float (x : Float) (room : ℕ) : (float x).fits room = true := by
  cases room <;> rfl

/-! ## Campaigns -/

namespace CampaignStats

/-- Every figure fits the word that it is read as. -/
structure InWords (s : CampaignStats) (count : Color → ℕ) : Prop where
  currentRound : s.currentRound < 2 ^ 32
  totalRounds : s.totalRounds < 2 ^ 32
  remainingRounds : s.remainingRounds < 2 ^ 32
  rareCount : s.rareCount < 2 ^ 32
  rareTarget : s.rareTarget < 2 ^ 32
  rareDeficit : s.rareDeficit < 2 ^ 32
  colorCounts : s.colorCounts = ByColor.tabulate fun c ↦ some (count c)
  count : ∀ c, count c < 2 ^ 64

variable {s : CampaignStats} {count : Color → ℕ}

theorem InWords.reread_toJson (h : s.InWords count) : s.toJson.reread = s.toJson := by
  have hword : ∀ {n : ℕ}, n < 2 ^ 32 → (nat n).reread = nat n :=
    fun hn ↦ reread_nat (hn.trans (by norm_num))
  have hcounts : (ByColor.toJson nat s.colorCounts).reread = ByColor.toJson nat s.colorCounts := by
    rw [h.colorCounts]
    exact ByColor.reread_toJson nat fun c ↦ reread_nat (h.count c)
  simp [toJson, reread, rereadMembers, hword h.currentRound, hword h.totalRounds,
    hword h.remainingRounds, hword h.rareCount, hword h.rareTarget, hword h.rareDeficit, hcounts,
    reread_colorsJson]

theorem InWords.ofJson?_toJson (h : s.InWords count) : ofJson? s.toJson = some s := by
  have hcounts : ByColor.ofJson? (natOfBits? 64) (ByColor.toJson nat s.colorCounts) =
      some s.colorCounts := by
    rw [h.colorCounts]
    exact ByColor.ofJson?_toJson nat (natOfBits? 64) fun c ↦ natOfBits?_nat (h.count c)
  simp [ofJson?, toJson, fields?, readAll?, onlyMember?, natOfBits?_nat h.currentRound,
    natOfBits?_nat h.totalRounds, natOfBits?_nat h.remainingRounds, natOfBits?_nat h.rareCount,
    natOfBits?_nat h.rareTarget, natOfBits?_nat h.rareDeficit, hcounts, items?_colorsJson]

theorem InWords.fits_toJson (h : s.InWords count) : s.toJson.fits (maxDepth - 1) = true := by
  have hcounts := ByColor.fits_toJson nat (fun c ↦ fits_nat (count c)) 124
  rw [← h.colorCounts] at hcounts
  change s.toJson.fits (124 + 1 + 1) = true
  simp [toJson, fits, membersFit, fits_nat, hcounts, fits_colorsJson]

end CampaignStats

theorem Campaign.Counted.inWords {w : Campaign Float} (h : w.Counted) :
    w.stats.InWords fun c ↦ w.history.count c := by
  obtain ⟨⟨s, hstep⟩, hlt⟩ := h
  have hlength : w.history.length < 2 ^ 32 := by
    rw [← hstep.round]
    exact hstep.round_le.trans_lt hlt
  have hcount : ∀ c, w.history.count c < 2 ^ 32 := fun c ↦ List.count_le_length.trans_lt hlength
  have htarget : w.rareTarget ≤ 3 := by
    rw [hstep.rareTarget, LessonDeck.rareTarget]
    omega
  constructor
  · exact hstep.round_le.trans_lt hlt
  · exact hlt
  · exact (Nat.sub_le _ _).trans_lt hlt
  · change w.rareCount < _
    rw [hstep.rareCount]
    exact hcount .yellow
  · exact htarget.trans_lt (by norm_num)
  · exact (Nat.sub_le _ _).trans_lt (htarget.trans_lt (by norm_num))
  · rfl
  · exact fun c ↦ (hcount c).trans (by norm_num)

/-! ## Adaptive wheels -/

/-- The figures are those of an adaptive wheel, but for the probabilities: the number of spins that
it remembers, how often each color is among them, and which they are. -/
structure AdaptiveStats.Tells (s : AdaptiveStats Float) (w : AdaptiveWheel Float) : Prop where
  totalSpins : s.totalSpins = w.history.length
  counts : ∀ c, s.counts.get c = some (w.history.count c)
  history : s.history = w.history

namespace AdaptiveStats

/-- Figures of counts and a history, with some probabilities. -/
def ofHistory (history : List Color) (p : Color → Float) : AdaptiveStats Float where
  totalSpins := history.length
  counts := ByColor.tabulate fun c ↦ some (history.count c)
  history := history
  probabilities := ByColor.tabulate fun c ↦ some (p c)

theorem Tells.ofHistory (w : AdaptiveWheel Float) (p : Color → Float) :
    (AdaptiveStats.ofHistory w.history p).Tells w :=
  ⟨rfl, ByColor.get_tabulate _, rfl⟩

variable {history : List Color} {p q : Color → Float}

theorem reread_toJson (hlength : history.length < 2 ^ 64)
    (hp : ∀ c, (float (p c)).reread = float (q c)) :
    (ofHistory history p).toJson.reread = (ofHistory history q).toJson := by
  have hcounts := ByColor.reread_toJson nat (f := fun c ↦ history.count c) fun c ↦
    reread_nat (List.count_le_length.trans_lt hlength)
  have hprobabilities := ByColor.reread_toJson float hp
  simp [ofHistory, toJson, reread, rereadMembers, reread_nat hlength, hcounts, hprobabilities,
    reread_colorsJson]

theorem ofJson?_toJson (hlength : history.length < 2 ^ 64) :
    ofJson? (ofHistory history q).toJson = some (ofHistory history q) := by
  have hcounts := ByColor.ofJson?_toJson nat (natOfBits? 64)
    (f := fun c ↦ history.count c) fun c ↦ natOfBits?_nat (List.count_le_length.trans_lt hlength)
  have hprobabilities := ByColor.ofJson?_toJson float float? (f := q)
    fun _ ↦ rfl
  simp [ofHistory, ofJson?, toJson, fields?, readAll?, onlyMember?, natOfBits?_nat hlength, hcounts,
    hprobabilities, items?_colorsJson]

theorem fits_toJson : (ofHistory history q).toJson.fits (maxDepth - 1) = true := by
  have hcounts := ByColor.fits_toJson nat (fun c ↦ fits_nat (history.count c)) 124
  have hprobabilities := ByColor.fits_toJson float (fun c ↦ fits_float (q c)) 124
  change (ofHistory history q).toJson.fits (124 + 1 + 1) = true
  simp [ofHistory, toJson, fits, membersFit, fits_nat, hcounts, hprobabilities, fits_colorsJson]

/-- The figures of an adaptive wheel do not tell which round it is, so that they are never taken for
those of a campaign. -/
theorem campaign_ofJson?_eq_none (s : AdaptiveStats Float) :
    CampaignStats.ofJson? s.toJson = none := by
  simp [CampaignStats.ofJson?, toJson, fields?, readAll?, onlyMember?]

end AdaptiveStats

theorem AdaptiveWheel.stats_eq (w : AdaptiveWheel Float) :
    w.stats = .ofHistory w.history w.probabilities.get :=
  rfl

/-! ## Either wheel -/

/-- The figures are of the same kind as the wheel, and tell of it. -/
inductive WheelStats.Tells : WheelStats → SessionWheel → Prop
  | adaptive {s : AdaptiveStats Float} {w : AdaptiveWheel Float} (h : s.Tells w) :
      Tells (.adaptive s) (.adaptive w)
  | campaign {s : CampaignStats} {w : Campaign Float} (h : s.Tells w) :
      Tells (.campaign s) (.campaign w)

/-- What a wheel tells of itself is read from its text as figures that tell of it. -/
theorem SessionWheel.Counted.exists_stats {w : SessionWheel} (h : w.Counted) :
    ∃ s, WheelStats.ofJson? w.stats.toJson.reread = some s ∧ s.Tells w := by
  cases h with
  | @adaptive w h =>
      have hlength : w.history.length < 2 ^ 64 := h.length_le.trans_lt h.maxHistory_lt
      have hback : ∀ c, ∃ y, (float (w.probabilities.get c)).reread = float y := fun c ↦
        exists_reread_float ((AdaptiveWheel.probabilities_within h.check c).mono (by norm_num) le_rfl)
      choose q hq using hback
      refine ⟨.adaptive (.ofHistory w.history q), ?_, .adaptive (.ofHistory w q)⟩
      have hread := AdaptiveStats.reread_toJson hlength hq
      rw [← w.stats_eq] at hread
      change WheelStats.ofJson? w.stats.toJson.reread = _
      rw [hread, WheelStats.ofJson?, if_pos AdaptiveStats.fits_toJson,
        AdaptiveStats.campaign_ofJson?_eq_none, AdaptiveStats.ofJson?_toJson hlength]
      rfl
  | @campaign w h =>
      have hwords := h.inWords
      refine ⟨.campaign w.stats, ?_, .campaign w.tells_stats⟩
      change WheelStats.ofJson? w.stats.toJson.reread = _
      rw [hwords.reread_toJson, WheelStats.ofJson?, if_pos hwords.fits_toJson,
        hwords.ofJson?_toJson]

end LessonDeck
