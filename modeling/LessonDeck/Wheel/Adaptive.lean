import LessonDeck.Wheel.Settings
/-!
# The adaptive wheel

Colors that came up more often than on average in the recent history lose weight, the others gain.
Only the history is carried from spin to spin; the distribution is found anew each time.
-/

namespace LessonDeck

open Scalar

structure AdaptiveWheel (α : Type) where
  settings : AdaptiveSettings α
  /-- The latest colors, the last one at the end. -/
  history : List Color
  deriving Repr, DecidableEq

structure AdaptiveSpin (α : Type) where
  color : Color
  probabilities : ByColor α
  random : α
  history : List Color
  deriving Repr, DecidableEq

structure ForcedSpin where
  color : Color
  history : List Color
  deriving Repr, DecidableEq

structure AdaptiveStats (α : Type) where
  /-- The number of spins that are remembered. -/
  totalSpins : Nat
  counts : ByColor (Option Nat)
  history : List Color
  probabilities : ByColor (Option α)
  deriving Repr, DecidableEq

namespace AdaptiveWheel

variable {α : Type} [Scalar α]

def ofSettings (settings : AdaptiveSettings α) : AdaptiveWheel α :=
  ⟨settings, []⟩

def create (settings : AdaptiveSettings α) : Except (WheelError α) (AdaptiveWheel α) := do
  settings.check
  return ofSettings settings

def count (w : AdaptiveWheel α) (c : Color) : Nat :=
  w.history.count c

/-- The weight of a color: its base weight, corrected by how far it is behind the average. -/
def weightOf (w : AdaptiveWheel α) (c : Color) : α :=
  let average : α := (w.history.length : α) / (Color.all.length : Nat)
  let base := w.settings.base.filled.get c
  base * (1 + w.settings.alpha * (average - (w.count c : Nat)))

def probabilities (w : AdaptiveWheel α) : ByColor α :=
  Wheel.project (ByColor.tabulate w.weightOf) w.settings.bounds false

/-- The wheel that remembers one more color, and forgets the oldest ones beyond its limit. -/
def record (w : AdaptiveWheel α) (c : Color) : AdaptiveWheel α :=
  let history := w.history ++ [c]
  { w with history := history.drop (history.length - w.settings.maxHistory) }

def spin (w : AdaptiveWheel α) (r : α) : AdaptiveSpin α × AdaptiveWheel α :=
  let p := w.probabilities
  let c := Wheel.sample p r
  let w := w.record c
  (⟨c, p, r, w.history⟩, w)

def force (w : AdaptiveWheel α) (c : Color) : ForcedSpin × AdaptiveWheel α :=
  let w := w.record c
  (⟨c, w.history⟩, w)

/-- Sets a color by its name.  Beside the result stands the wheel as it is then, also when the name
is refused. -/
def forceNamed (w : AdaptiveWheel α) (name : String) :
    Except (WheelError α) ForcedSpin × AdaptiveWheel α :=
  match Color.recognize name with
  | .error e => (.error (.unknownColor e), w)
  | .ok c =>
    let (s, w) := w.force c
    (.ok s, w)

def reset (w : AdaptiveWheel α) : AdaptiveWheel α :=
  { w with history := [] }

def updateBase (w : AdaptiveWheel α) (base : ByColor (Option α)) :
    Except (WheelError α) Unit × AdaptiveWheel α :=
  match Wheel.checkWeights base with
  | .error e => (.error e, w)
  | .ok () => (.ok (), { w with settings := { w.settings with base := base } })

def stats (w : AdaptiveWheel α) : AdaptiveStats α where
  totalSpins := w.history.length
  counts := ByColor.tabulate fun c => some (w.count c)
  history := w.history
  probabilities := w.probabilities.map some

end AdaptiveWheel

end LessonDeck
