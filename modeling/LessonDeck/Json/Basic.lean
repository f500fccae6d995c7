import LessonDeck.Decimal.Layout
/-!
# JSON values

A JSON value keeps the order of its members and also members of one name, so that a reader of
records can refuse a name given twice.  Whole numbers and doubles are told apart, as they are by
how they are spelled.
-/

namespace LessonDeck

inductive Json where
  | null
  | bool (b : Bool)
  /-- A number spelled without fraction and exponent. -/
  | int (n : Int)
  | float (x : Float)
  | string (s : String)
  | array (items : List Json)
  | object (members : List (String × Json))
  /-- Well-formed text that denotes no value: a number beyond the doubles, or a string or a name
  with half of a surrogate pair.  It may stand where nobody looks at it. -/
  | garbled

namespace Json

mutual

/-- Whether everything in a value denotes something and at most so many containers are nested. -/
def fits (room : Nat) : Json → Bool
  | array items =>
    match room with
    | 0 => false
    | room + 1 => itemsFit room items
  | object members =>
    match room with
    | 0 => false
    | room + 1 => membersFit room members
  | garbled => false
  | _ => true

def itemsFit (room : Nat) : List Json → Bool
  | [] => true
  | item :: items => fits room item && itemsFit room items

def membersFit (room : Nat) : List (String × Json) → Bool
  | [] => true
  | (_, value) :: members => fits room value && membersFit room members

end

def ofOption {α : Type} (f : α → Json) : Option α → Json
  | none => null
  | some a => f a

/-- A member that is left out when there is nothing to write. -/
def member? {α : Type} (name : String) (f : α → Json) : Option α → List (String × Json)
  | none => []
  | some a => [(name, f a)]

def nat (n : Nat) : Json :=
  int n

end Json

end LessonDeck
