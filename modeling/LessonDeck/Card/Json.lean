import LessonDeck.Card
import LessonDeck.Json.Shape
import LessonDeck.Json.Write
/-!
# Cards in JSON

Cards are exchanged as records of identifier, kind, value and color; kinds and colors by name.
-/

namespace LessonDeck

def Color.toJson (c : Color) : Json :=
  .string c.name

def Color.ofJson? (j : Json) : Option Color :=
  j.choice? Color.ofName?

/-- A table of the colors that have an entry, in the order of the wheel. -/
def ByColor.toJson {α : Type} (write : α → Json) (t : ByColor (Option α)) : Json :=
  .object (t.toList.flatMap fun (c, entry) => Json.member? c.name write entry)

/-- The table by colors that an object holds.  A color may be missing; if it comes more than once,
its last entry counts. -/
def ByColor.ofJson? {α : Type} (read : Json → Option α) (j : Json) : Option (ByColor (Option α)) :=
  (j.table? Color.ofName? read).map fun entries =>
    entries.foldl (fun t (c, a) => t.set c (some a)) (ByColor.const none)

namespace Card

def toJson (c : Card) : Json :=
  .object [("id", .string c.id), ("type", .string c.kind.name), ("value", .string c.value),
    ("color", c.color.toJson)]

def ofJson? (j : Json) : Option Card := do
  match ← j.fields? ["id", "type", "value", "color"] false with
  | [some id, some kind, some value, some color] =>
    return ⟨← id.text?, ← kind.choice? CardKind.ofName?, ← value.text?, ← Color.ofJson? color⟩
  | _ => none

def ofText? (text : String) : Option Card :=
  (Json.parse? text).bind ofJson?

def rowOfText? (text : String) : Option (List Card) :=
  (Json.parse? text).bind (Json.items? ofJson?)

end Card

end LessonDeck
