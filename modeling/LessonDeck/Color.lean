import LessonDeck.Text.Blank
/-!
# Wheel colors

Every card belongs to one of four colors, and the wheel turns up one of them.  The colors have a
fixed order, green, red, blue, yellow, in which weights are added and draws are matched.
-/

namespace LessonDeck

/-- A color of the wheel, which is also a category of cards. -/
inductive Color where
  /-- Number cards. -/
  | green
  /-- Assignment and control-flow cards. -/
  | red
  /-- Operator and comparison cards. -/
  | blue
  /-- Variable and print cards. -/
  | yellow
  deriving Repr, DecidableEq

structure UnknownColor where
  name : String
  deriving Repr, DecidableEq

def UnknownColor.message (e : UnknownColor) : String :=
  "invalid category: '" ++ e.name ++ "'"

namespace Color

/-- The colors in the order of the wheel. -/
def all : List Color :=
  [green, red, blue, yellow]

def name : Color → String
  | green => "green"
  | red => "red"
  | blue => "blue"
  | yellow => "yellow"

def index : Color → Nat
  | green => 0
  | red => 1
  | blue => 2
  | yellow => 3

def ofName? (name : String) : Option Color :=
  all.find? fun c => c.name == name

/-- The color that somebody means: blanks around the name and the case of ASCII letters do not
count. -/
def recognize (text : String) : Except UnknownColor Color :=
  let wanted := (Text.trim text.toList).map Char.toLower
  match all.find? fun c => c.name.toList == wanted with
  | some c => .ok c
  | none => .error ⟨text⟩

end Color

structure ByColor (α : Type) where
  green : α
  red : α
  blue : α
  yellow : α
  deriving Repr, DecidableEq

namespace ByColor

variable {α β : Type}

def get (t : ByColor α) : Color → α
  | .green => t.green
  | .red => t.red
  | .blue => t.blue
  | .yellow => t.yellow

def tabulate (f : Color → α) : ByColor α :=
  ⟨f .green, f .red, f .blue, f .yellow⟩

def const (a : α) : ByColor α :=
  tabulate fun _ => a

def set (t : ByColor α) (c : Color) (a : α) : ByColor α :=
  tabulate fun d => if d = c then a else t.get d

def map (f : α → β) (t : ByColor α) : ByColor β :=
  tabulate fun c => f (t.get c)

def toList (t : ByColor α) : List (Color × α) :=
  Color.all.map fun c => (c, t.get c)

@[simp] theorem get_tabulate (f : Color → α) (c : Color) : (tabulate f).get c = f c := by
  cases c <;> rfl

@[simp] theorem get_map (f : α → β) (t : ByColor α) (c : Color) :
    (t.map f).get c = f (t.get c) := by
  simp [map]

theorem get_set (t : ByColor α) (c d : Color) (a : α) :
    (t.set c a).get d = if d = c then a else t.get d := by
  simp [set]

end ByColor

end LessonDeck
