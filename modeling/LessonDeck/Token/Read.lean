import LessonDeck.Text.Letter
import LessonDeck.Command.Error
/-!
# Reading cards

Each card is read by itself: its kind says which form its value must have, blanks around the value
aside.  In a row the first card that cannot be read decides the outcome.
-/

namespace LessonDeck

/-- The variable of a print card that names none. -/
def defaultPrintName : String :=
  "score"

def maxForCount : Nat :=
  1000

namespace Meaning

/-- A number card: a decimal integer, clamped to the range of values. -/
def ofNumber (text : List Char) : Except CardFault Meaning :=
  match Text.readInt64 text with
  | .number n => .ok (number (Value.clamp (Int64.ofInt n)))
  | .tooLarge => .ok (number (Value.clamp Int64.maxValue))
  | .tooSmall => .ok (number (Value.clamp Int64.minValue))
  | .malformed => .error (.notANumber (String.ofList text))

def nameOf (text : List Char) : Except CardFault String :=
  if Text.isName text then .ok (String.ofList text) else .error (.invalidName (String.ofList text))

/-- An operator card: an arithmetic sign, or the equals sign by itself. -/
def ofOperator (text : List Char) : Except CardFault Meaning :=
  if text = ['='] then .ok equals
  else
    match Arith.ofText? (String.ofList text) with
    | some op => .ok (operator op)
    | none => .error (.unknownOperator (String.ofList text))

/-- An assign card: a variable name, the equals sign, or the name followed by the sign. -/
def ofAssign (text : List Char) : Except CardFault Meaning :=
  if text = ['='] then .ok equals
  else if text.getLast? = some '=' then
    (nameOf (Text.trimEnd text.dropLast)).map fun v => target v true
  else (nameOf text).map fun v => target v false

/-- What stands between the parentheses of a text that reads `print(…)`. -/
def printArgument? (text : List Char) : Option (List Char) :=
  if ['p', 'r', 'i', 'n', 't'].isPrefixOf text then
    match Text.trimStart (text.drop 5) with
    | '(' :: inner => if inner.getLast? = some ')' then some (Text.trim inner.dropLast) else none
    | _ => none
  else none

/-- A print card: it prints the variable between its parentheses, or the score if there is
none. -/
def ofPrint (text : List Char) : Except CardFault Meaning :=
  match printArgument? text with
  | some (c :: cs) => (nameOf (c :: cs)).map print
  | _ => .ok (print defaultPrintName)

def ofCompare (text : List Char) : Except CardFault Meaning :=
  match Comparison.ofText? (String.ofList text) with
  | some op => .ok (compare op)
  | none => .error (.unknownComparison (String.ofList text))

def ofKeyword (text : List Char) : Except CardFault Meaning :=
  match Keyword.ofText? (String.ofList text) with
  | some word => .ok (keyword word)
  | none => .error (.unknownKeyword (String.ofList text))

/-- The bound of a text whose words are `for i = 1 to` and a number that is not too large. -/
def forCount? (text : List Char) : Option UInt32 :=
  match Text.words text with
  | [['f', 'o', 'r'], ['i'], ['='], ['1'], ['t', 'o'], bound] =>
    match Text.readNat? bound with
    | some n => if n ≤ maxForCount then some (UInt32.ofNat n) else none
    | none => none
  | _ => none

def ofFor (text : List Char) : Except CommandError Meaning :=
  match Keyword.ofText? (String.ofList text) with
  | some word => .ok (keyword word)
  | none =>
    match forCount? text with
    | some count => .ok (forHeader count)
    | none => .error (.invalidForHeader (String.ofList text))

def read (kind : CardKind) (text : List Char) (place : Nat) : Except CommandError Meaning :=
  match kind with
  | .number => (ofNumber text).mapError (.malformedCard place)
  | .operator => (ofOperator text).mapError (.malformedCard place)
  | .assign => (ofAssign text).mapError (.malformedCard place)
  | .varref => ((nameOf text).map varref).mapError (.malformedCard place)
  | .print => (ofPrint text).mapError (.malformedCard place)
  | .compare => (ofCompare text).mapError (.malformedCard place)
  | .conditional | .loop => (ofKeyword text).mapError (.malformedCard place)
  | .forLoop => ofFor text
  | .logical => .ok (logical (String.ofList text))

end Meaning

namespace Token

def read (card : Card) (place : Nat) : Except CommandError Token :=
  let text := Text.trim card.value.toList
  (Meaning.read card.kind text place).map fun meaning => ⟨meaning, place, String.ofList text⟩

def readFrom (place : Nat) : List Card → Except CommandError (List Token)
  | [] => .ok []
  | card :: cards =>
    match read card place with
    | .error e => .error e
    | .ok token => (readFrom (place + 1) cards).map (token :: ·)

/-- Reads a row of cards; the first card that cannot be read decides. -/
def readAll (cards : List Card) : Except CommandError (List Token) :=
  readFrom 0 cards

end Token

end LessonDeck
