import LessonDeck.Json.Read
/-!
# Shapes of JSON values

How values of the domain are found in JSON.  A record is an object with its fields by name, or an
array with its fields by place; unknown names are passed over, a known name may be given only once.
A tagged record says first, or anywhere among its members, which of several records it is.
-/

namespace LessonDeck.Json

/-- The deepest nesting of containers in a value that has to be kept before it is understood. -/
def maxDepth : Nat :=
  127

def text? : Json → Option String
  | string s => some s
  | _ => none

def intIn? (lo hi : Int) : Json → Option Int
  | int n => if lo ≤ n ∧ n ≤ hi then some n else none
  | _ => none

def int64? (j : Json) : Option Int64 :=
  (intIn? Int64.minValue.toInt Int64.maxValue.toInt j).map Int64.ofInt

/-- A natural number of so many bits. -/
def natOfBits? (bits : Nat) (j : Json) : Option Nat :=
  (intIn? 0 (Nat.pow 2 bits - 1) j).map Int.toNat

/-- A double; whole numbers serve, too. -/
def float? : Json → Option Float
  | int n => some (Float.ofInt n)
  | float x => some x
  | _ => none

def nullable? {α : Type} (read : Json → Option α) : Json → Option (Option α)
  | null => some none
  | j => (read j).map some

def readAll? {α β : Type} (read : α → Option β) : List α → Option (List β)
  | [] => some []
  | a :: as => do
    let b ← read a
    let bs ← readAll? read as
    return b :: bs

def items? {α : Type} (read : Json → Option α) : Json → Option (List α)
  | array items => readAll? read items
  | _ => none

/-- An object as a table, in the order of its members; a name may come more than once. -/
def table? {κ α : Type} (key : String → Option κ) (read : Json → Option α) :
    Json → Option (List (κ × α))
  | object members => readAll? (fun (name, value) => do return (← key name, ← read value)) members
  | _ => none

/-- One name of a fixed choice: a string, or an object that maps the name to null. -/
def choice? {α : Type} (ofName? : String → Option α) : Json → Option α
  | string s => ofName? s
  | object [(s, null)] => ofName? s
  | _ => none

/-- One name of a fixed choice in a value that has been kept: the name may also be mapped to an
empty object. -/
def keptChoice? {α : Type} (ofName? : String → Option α) : Json → Option α
  | object [(s, object [])] => ofName? s
  | j => j.choice? ofName?

/-- The value of the only member of a name; it may be missing, but not given twice. -/
def onlyMember? (name : String) (members : List (String × Json)) : Option (Option Json) :=
  match members.filter fun m => m.1 == name with
  | [] => some none
  | [(_, value)] => some (some value)
  | _ => none

/-- The fields of a record, in the order of their names.  By place they must all be there, unless
the record has something to put for those that are missing at its end. -/
def fields? (names : List String) (hasDefaults : Bool) : Json → Option (List (Option Json))
  | object members => readAll? (onlyMember? · members) names
  | array items =>
    if items.length = names.length || (hasDefaults && items.length < names.length) then
      some (items.map some ++ List.replicate (names.length - items.length) none)
    else none
  | _ => none

/-- The tag of a tagged record, and the record without it. -/
def tagged? (tag : String) : Json → Option (Json × Json)
  | object members =>
    match onlyMember? tag members with
    | some (some value) => some (value, object (members.filter fun m => m.1 != tag))
    | _ => none
  | array (value :: items) => some (value, array items)
  | _ => none

end LessonDeck.Json
