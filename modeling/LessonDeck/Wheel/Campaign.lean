import LessonDeck.Wheel.Settings
/-!
# The campaign wheel

A campaign has a fixed number of rounds.  Yellow is rare and has a target; four rules shape every
draw:

1. yellow gains weight while it is behind schedule, loses all of it once the target is met, and
   comes at once when the rounds left only just suffice;
2. yellow and blue never come twice in a row;
3. of green and red, the one that leads in the last spins gives up some weight to the other;
4. green or red, when it came last, gives up some weight to the other colors.
-/

namespace LessonDeck

open Scalar

inductive SpinReason where
  /-- The rounds left only just suffice for the target. -/
  | rareRequired
  /-- Yellow came up while it had gained weight. -/
  | rareBoosted
  /-- The color came up that the balance favored. -/
  | rebalanced
  | weighted
  | manual
  deriving Repr, DecidableEq

def SpinReason.name : SpinReason → String
  | rareRequired => "rare_required"
  | rareBoosted => "rare_boosted"
  | rebalanced => "rebalanced"
  | weighted => "weighted"
  | manual => "manual"

structure Campaign (α : Type) where
  settings : CampaignSettings α
  round : Nat
  rareCount : Nat
  rareTarget : Nat
  /-- The colors of all rounds played, the last one at the end. -/
  history : List Color
  deriving Repr, DecidableEq

structure CampaignSpin (α : Type) where
  color : Color
  reason : SpinReason
  /-- The number of the round, counted from one. -/
  round : Nat
  /-- The distribution and the number it was drawn with, unless it was set by hand. -/
  draw : Option (ByColor α × α)
  deriving Repr, DecidableEq

structure CampaignStats where
  currentRound : Nat
  totalRounds : Nat
  remainingRounds : Nat
  rareCount : Nat
  rareTarget : Nat
  rareDeficit : Nat
  colorCounts : ByColor (Option Nat)
  history : List Color
  deriving Repr, DecidableEq

structure Plan (α : Type) where
  probabilities : ByColor α
  rareRequired : Bool
  rareBoosted : Bool
  favored : Option Color
  deriving Repr, DecidableEq

/-- How often yellow is to come up in a campaign: once in five rounds, but twice or thrice, and
never more often than fits when it does not repeat. -/
def rareTarget (rounds : Nat) : Nat :=
  min (min (max (rounds / 5) 2) 3) ((rounds + 1) / 2)

/-- How often yellow can still come up in so many rounds when it does not repeat. -/
def rareCapacity (rounds : Nat) (lastWasRare : Bool) : Nat :=
  if lastWasRare then rounds / 2 else (rounds + 1) / 2

def neverRepeats (c : Color) : Bool :=
  c == .yellow || c == .blue

namespace Campaign

variable {α : Type} [Scalar α]

def ofSettings (settings : CampaignSettings α) : Campaign α :=
  ⟨settings, 0, 0, LessonDeck.rareTarget settings.totalRounds, []⟩

def create (settings : CampaignSettings α) : Except (WheelError α) (Campaign α) := do
  settings.check
  return ofSettings settings

def isFinished (w : Campaign α) : Bool :=
  w.settings.totalRounds ≤ w.round

def remaining (w : Campaign α) : Nat :=
  w.settings.totalRounds - w.round

def deficit (w : Campaign α) : Nat :=
  w.rareTarget - w.rareCount

/-- Whether yellow must come now: the rounds left only just suffice. -/
def rareIsRequired (w : Campaign α) : Bool :=
  0 < w.deficit && w.history.getLast? != some .yellow &&
    rareCapacity w.remaining false ≤ w.deficit

/-- How far yellow is behind a schedule that spreads its target evenly, the coming round
included. -/
def behindSchedule (w : Campaign α) : α :=
  (w.rareTarget : α) * ((w.round + 1 : Nat) : α) / (w.settings.totalRounds : α) - (w.rareCount : α)

def baseWeights (w : Campaign α) : ByColor α :=
  w.settings.base.filled.map positivePart

/-- The soft half of the first rule: yellow loses all weight once the target is met, and gains some
while it is behind.  Also says whether it gained. -/
def boostRare (w : Campaign α) (weights : ByColor α) : ByColor α × Bool :=
  if w.deficit = 0 then (weights.set .yellow 0, false)
  else if 0 < w.behindSchedule then
    (weights.set .yellow (weights.yellow + w.settings.rareBoost * w.behindSchedule), true)
  else (weights, false)

/-- The second rule: yellow or blue, when it came last, loses all weight. -/
def forbidRepeat (last : Option Color) (weights : ByColor α) : ByColor α :=
  match last with
  | some c => if neverRepeats c then weights.set c 0 else weights
  | none => weights

/-- The color of green and red that leads in the last spins by two or more, and the other one. -/
def leader? (w : Campaign α) : Option (Color × Color) :=
  let window := w.history.drop (w.history.length - w.settings.balanceWindow)
  let greens := window.count .green
  let reds := window.count .red
  if reds + 2 ≤ greens then some (.green, .red)
  else if greens + 2 ≤ reds then some (.red, .green)
  else none

/-- The third rule: the leader gives up some weight to the other.  Also says which is favored. -/
def rebalance (w : Campaign α) (weights : ByColor α) : ByColor α × Option Color :=
  match w.leader? with
  | none => (weights, none)
  | some (leader, trailer) =>
    let shift := weights.get leader * w.settings.balanceShift
    let lowered := weights.set leader (weights.get leader - shift)
    (lowered.set trailer (lowered.get trailer + shift), some trailer)

/-- A color gives up a share of its weight to the other colors with weight, in proportion. -/
def penalize (penalty : α) (c : Color) (weights : ByColor α) : ByColor α :=
  let removed := weights.get c * penalty
  let others := sumOf weights.get (Color.all.filter fun d => d ≠ c && decide (0 < weights.get d))
  if removed ≤ 0 ∨ others ≤ 0 then weights
  else
    ByColor.tabulate fun d =>
      let x := weights.get d
      if d = c then x - removed else if 0 < x then x + removed * x / others else x

/-- The fourth rule: green or red, when it came last, gives up some weight. -/
def penalizeRepeat (w : Campaign α) (weights : ByColor α) : ByColor α :=
  match w.history.getLast? with
  | some c => if neverRepeats c then weights else penalize w.settings.repeatPenalty c weights
  | none => weights

def plan (w : Campaign α) : Plan α :=
  if w.rareIsRequired then
    ⟨ByColor.tabulate fun c => if c = .yellow then 1 else 0, true, false, none⟩
  else
    let (boosted, rareBoosted) := w.boostRare w.baseWeights
    let (balanced, favored) := w.rebalance (forbidRepeat w.history.getLast? boosted)
    ⟨Wheel.project (w.penalizeRepeat balanced) w.settings.bounds true, false, rareBoosted, favored⟩

def reasonFor (p : Plan α) (c : Color) : SpinReason :=
  if p.rareRequired then .rareRequired
  else if c = .yellow ∧ p.rareBoosted then .rareBoosted
  else if p.favored = some c then .rebalanced
  else .weighted

def record (w : Campaign α) (c : Color) : Campaign α :=
  { w with
    round := w.round + 1
    rareCount := if c = .yellow then w.rareCount + 1 else w.rareCount
    history := w.history ++ [c] }

/-- Refuses to go on when no round is left. -/
def ensureRunning (w : Campaign α) : Except (WheelError α) Unit :=
  if w.isFinished then .error (.campaignFinished w.settings.totalRounds) else .ok ()

def probabilities (w : Campaign α) : Except (WheelError α) (ByColor α) := do
  w.ensureRunning
  return w.plan.probabilities

/-- Spins with the next draw of a source, which is taken once it is certain that a round is left.
Beside the result stand the campaign and the source as they are then, also when it is an error. -/
def spinFrom {σ : Type} (w : Campaign α) (next : σ → α × σ) (source : σ) :
    Except (WheelError α) (CampaignSpin α) × Campaign α × σ :=
  match w.ensureRunning with
  | .error e => (.error e, w, source)
  | .ok () =>
    let p := w.plan
    let (r, source) := next source
    let c := Wheel.sample p.probabilities r
    let w := w.record c
    (.ok ⟨c, reasonFor p c, w.round, some (p.probabilities, r)⟩, w, source)

/-- Spins with a given draw. -/
def spin (w : Campaign α) (r : α) : Except (WheelError α) (CampaignSpin α) × Campaign α :=
  let (result, w, ()) := w.spinFrom (fun () => (r, ())) ()
  (result, w)

def force (w : Campaign α) (c : Color) : Except (WheelError α) (CampaignSpin α) × Campaign α :=
  match w.ensureRunning with
  | .error e => (.error e, w)
  | .ok () =>
    let w := w.record c
    (.ok ⟨c, .manual, w.round, none⟩, w)

/-- Sets the color of a round by its name.  A wrong name is refused before anything else. -/
def forceNamed (w : Campaign α) (name : String) :
    Except (WheelError α) (CampaignSpin α) × Campaign α :=
  match Color.recognize name with
  | .error e => (.error (.unknownColor e), w)
  | .ok c => w.force c

/-- A new campaign of so many rounds with the same settings otherwise. -/
def reset (w : Campaign α) (rounds : Nat) : Campaign α :=
  ofSettings { w.settings with totalRounds := rounds }

def stats (w : Campaign α) : CampaignStats where
  currentRound := w.round
  totalRounds := w.settings.totalRounds
  remainingRounds := w.remaining
  rareCount := w.rareCount
  rareTarget := w.rareTarget
  rareDeficit := w.deficit
  colorCounts := ByColor.tabulate fun c => some (w.history.count c)
  history := w.history

end Campaign

end LessonDeck
