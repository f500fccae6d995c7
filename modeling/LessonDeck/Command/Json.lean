import LessonDeck.Card.Json
import LessonDeck.Command.Parse
/-!
# Commands in JSON

A command is a tagged record: its member `type` says which form it has.  The statements inside are
tagged in the same way; as they are read from a value that has been kept, their tag may also be
the number of their form.
-/

namespace LessonDeck

open Json

def int64Json (n : Int64) : Json :=
  .int n.toInt

def Condition.toJson (c : Condition) : Json :=
  .object [("variable", .string c.name), ("operator", .string c.op.symbol),
    ("literal", int64Json c.literal)]

def Condition.ofJson? (j : Json) : Option Condition := do
  match ← j.fields? ["variable", "operator", "literal"] false with
  | [some name, some op, some literal] =>
    return ⟨← name.text?, ← op.keptChoice? Comparison.ofSymbol?, ← literal.int64?⟩
  | _ => none

namespace Simple

def toJson : Simple → Json
  | assign name n =>
    .object [("type", .string "assignment"), ("variable", .string name), ("literal", int64Json n)]
  | compute name left op n =>
    .object [("type", .string "expression"), ("variable", .string name), ("leftVar", .string left),
      ("operator", .string op.symbol), ("rightLiteral", int64Json n)]
  | print name => .object [("type", .string "print"), ("variable", .string name)]

def ofForm? (form : String) (body : Json) : Option Simple :=
  if form = "assignment" then do
    match ← body.fields? ["variable", "literal"] false with
    | [some name, some literal] => return assign (← name.text?) (← literal.int64?)
    | _ => none
  else if form = "expression" then do
    match ← body.fields? ["variable", "leftVar", "operator", "rightLiteral"] false with
    | [some name, some left, some op, some literal] =>
      return compute (← name.text?) (← left.text?) (← op.keptChoice? Arith.ofSymbol?)
        (← literal.int64?)
    | _ => none
  else if form = "print" then do
    match ← body.fields? ["variable"] false with
    | [some name] => return print (← name.text?)
    | _ => none
  else none

/-- The name of a form by its number. -/
def formOfNumber? : Int → Option String
  | 0 => some "assignment"
  | 1 => some "expression"
  | 2 => some "print"
  | _ => none

/-- The statement that a record inside a command describes. -/
def ofInner? (j : Json) : Option Simple := do
  match ← j.tagged? "type" with
  | (.string form, body) => ofForm? form body
  | (.int n, body) => ofForm? (← formOfNumber? n) body
  | _ => none

/-- The statement that a record by itself describes. -/
def ofJson? (j : Json) : Option Simple :=
  if j.fits maxDepth then do
    match ← j.tagged? "type" with
    | (.string form, body) => ofForm? form body
    | _ => none
  else none

def ofText? (text : String) : Option Simple :=
  (Json.parse? text).bind ofJson?

end Simple

namespace Command

/-- A command as a tagged record; a missing branch is written as null. -/
def toJson : Command → Json
  | simple s => s.toJson
  | branch c onTrue onFalse =>
    .object [("type", .string "if"), ("condition", c.toJson), ("thenBranch", onTrue.toJson),
      ("elseBranch", Json.ofOption Simple.toJson onFalse)]
  | whileLoop c body =>
    .object [("type", .string "while"), ("condition", c.toJson), ("body", body.toJson)]
  | forLoop count body =>
    .object [("type", .string "for"), ("count", .nat count.toNat), ("body", body.toJson)]

def ofForm? (form : String) (body : Json) : Option Command :=
  if form = "if" then do
    match ← body.fields? ["condition", "thenBranch", "elseBranch"] false with
    | [some condition, some onTrue, onFalse] =>
      return branch (← Condition.ofJson? condition) (← Simple.ofInner? onTrue)
        (← (onFalse.getD .null).nullable? Simple.ofInner?)
    | _ => none
  else if form = "while" then do
    match ← body.fields? ["condition", "body"] false with
    | [some condition, some statement] =>
      return whileLoop (← Condition.ofJson? condition) (← Simple.ofInner? statement)
    | _ => none
  else if form = "for" then do
    match ← body.fields? ["count", "body"] false with
    | [some count, some statement] =>
      return forLoop (UInt32.ofNat (← count.natOfBits? 32)) (← Simple.ofInner? statement)
    | _ => none
  else (Simple.ofForm? form body).map simple

def ofJson? (j : Json) : Option Command :=
  if j.fits maxDepth then do
    match ← j.tagged? "type" with
    | (.string form, body) => ofForm? form body
    | _ => none
  else none

def ofText? (text : String) : Option Command :=
  (Json.parse? text).bind ofJson?

end Command

/-- The report on a row of cards: the command it forms, or why it forms none. -/
def ParsedCommand.reportJson : Except CommandError ParsedCommand → Json
  | .ok parsed =>
    .object [("valid", .bool true), ("command", .string parsed.text),
      ("tree", parsed.command.toJson)]
  | .error e =>
    .object [("valid", .bool false), ("error", .string e.message), ("code", .string e.code)]

end LessonDeck
