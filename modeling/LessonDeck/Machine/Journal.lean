import LessonDeck.Time.Instant
import LessonDeck.Variables
/-!
# The journal

Everything that happens at the table is written down: who acted and when, what was done, what came
of it, and the variables as they stood afterwards.
-/

namespace LessonDeck

inductive EntryKind where
  | info
  | warning
  | error
  deriving Repr, DecidableEq

namespace EntryKind

def all : List EntryKind :=
  [info, warning, error]

def name : EntryKind → String
  | info => "info"
  | warning => "warning"
  | error => "error"

def ofName? (name : String) : Option EntryKind :=
  all.find? fun k => k.name == name

end EntryKind

/-- Who acts, and the clock that tells when.  It is read anew for each entry. -/
structure Signature where
  actor : String
  /-- What the clock shows when the entry with this number in the journal is made. -/
  clock : Nat → Instant

/-- Somebody who makes one entry, and when. -/
def Signature.once (actor : String) (time : Instant) : Signature :=
  ⟨actor, fun _ => time⟩

structure Entry where
  time : Instant
  actor : String
  action : String
  result : String
  /-- The variables as they stood afterwards. -/
  snapshot : Variables
  kind : EntryKind
  deriving Repr, DecidableEq

/-- The entry that comes behind so many others. -/
def Signature.entry (who : Signature) (number : Nat) (vars : Variables) (kind : EntryKind)
    (action result : String) : Entry :=
  ⟨who.clock number, who.actor, action, result, vars, kind⟩

end LessonDeck
