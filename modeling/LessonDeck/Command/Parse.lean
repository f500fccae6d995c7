import LessonDeck.Command.Basic
import LessonDeck.Token.Read
/-!
# From cards to a command

A row of cards is read card by card and then as a whole.  Control structures are taken apart at
their keywords: the first `then`, the first `else` after it, the first `do` and the first `end`
after it.  Levels are cumulative: each admits all that the one below admits.
-/

namespace LessonDeck

def minLevel : Nat :=
  1

def maxLevel : Nat :=
  4

def isLevel (level : Nat) : Bool :=
  minLevel ≤ level && level ≤ maxLevel

/-- What stands before and behind the first occurrence of a keyword. -/
def splitAtKeyword? (word : Keyword) : List Meaning → Option (List Meaning × List Meaning)
  | [] => none
  | m :: rest =>
    if m = .keyword word then some ([], rest)
    else (splitAtKeyword? word rest).map fun (before, behind) => (m :: before, behind)

namespace Simple

/-- What follows the equals sign: a number, or a variable, an operator and a number. -/
def ofValue (name : String) : List Meaning → Except StructureFault Simple
  | [.number n] => .ok (assign name n)
  | [.varref left, .operator op, .number n] => .ok (compute name left op n)
  | [] => .error .noValue
  | [_, _, _] => .error .invalidExpression
  | [found] => .error (.notANumber found)
  | _ => .error .wrongValueCount

def ofMeanings : List Meaning → Except StructureFault Simple
  | [] => .error .noStatement
  | .print name :: rest => if rest.isEmpty then .ok (print name) else .error .printNotAlone
  | .target name true :: rest => ofValue name rest
  | .target name false :: .equals :: rest => ofValue name rest
  | .target _ false :: _ => .error .noEquals
  | .keyword .ifWord :: _ => .error .nestedControl
  | .keyword .whileWord :: _ => .error .nestedControl
  | .forHeader _ :: _ => .error .nestedControl
  | _ => .error .noAssignment

def inSlot (slot : Slot) (row : List Meaning) : Except CommandError Simple :=
  (ofMeanings row).mapError fun fault => .invalidBranch slot (.invalidStructure fault)

end Simple

def Condition.ofMeanings : List Meaning → Except ConditionFault Condition
  | [.varref name, .compare op, .number n] => .ok ⟨name, op, n⟩
  | [_, _, _] => .error .wrongCards
  | other => .error (.wrongCount other.length)

namespace Command

def ofIf (row : List Meaning) : Except CommandError Command := do
  let (head, branches) ← (splitAtKeyword? .thenWord row).elim (.error .missingThen) .ok
  let condition ← (Condition.ofMeanings head).mapError .invalidCondition
  match splitAtKeyword? .elseWord branches with
  | none =>
    let onTrue ← Simple.inSlot .thenBranch branches
    return branch condition onTrue none
  | some (first, second) =>
    let onTrue ← Simple.inSlot .thenBranch first
    let onFalse ← Simple.inSlot .elseBranch second
    return branch condition onTrue (some onFalse)

/-- What stands before the first `do`, and between it and the first `end` after it; nothing may
follow that `end`. -/
def splitLoop (construct : Construct) (row : List Meaning) :
    Except CommandError (List Meaning × List Meaning) := do
  let (head, rest) ←
    (splitAtKeyword? .doWord row).elim (.error (.missingKeyword .doWord construct)) .ok
  let (body, behind) ←
    (splitAtKeyword? .endWord rest).elim (.error (.missingKeyword .endWord construct)) .ok
  if behind.isEmpty then return (head, body) else .error (.trailingCards construct)

def ofWhile (row : List Meaning) : Except CommandError Command := do
  let (head, body) ← splitLoop .whileLoop row
  let condition ← (Condition.ofMeanings head).mapError .invalidCondition
  let statement ← Simple.inSlot .whileBody body
  return whileLoop condition statement

def ofFor (count : UInt32) (row : List Meaning) : Except CommandError Command := do
  let (head, body) ← splitLoop .forLoop row
  if head.isEmpty then
    let statement ← Simple.inSlot .forBody body
    return forLoop count statement
  else .error (.invalidStructure .doNotNext)

def atLevel (level : Nat) (construct : Construct) (k : Except CommandError Command) :
    Except CommandError Command :=
  if level < construct.requiredLevel then .error (.levelTooLow construct level) else k

def ofMeanings (level : Nat) : List Meaning → Except CommandError Command
  | .keyword .ifWord :: row => atLevel level .ifStatement (ofIf row)
  | .keyword .whileWord :: row => atLevel level .whileLoop (ofWhile row)
  | .forHeader count :: row => atLevel level .forLoop (ofFor count row)
  | row => ((Simple.ofMeanings row).map simple).mapError .invalidStructure

end Command

structure ParsedCommand where
  command : Command
  /-- The values of the cards, joined by single blanks. -/
  text : String
  deriving Repr, DecidableEq

namespace ParsedCommand

/-- The command that a row of cards forms at a level.  An empty row is refused first, then a wrong
level, then the first card that cannot be read. -/
def ofCards (level : Nat) (cards : List Card) : Except CommandError ParsedCommand := do
  if cards.isEmpty then .error .emptyCommand
  else if isLevel level then
    let tokens ← Token.readAll cards
    let command ← Command.ofMeanings level (tokens.map Token.meaning)
    return ⟨command, " ".intercalate (tokens.map Token.text)⟩
  else .error (.invalidLevel level)

end ParsedCommand

end LessonDeck
