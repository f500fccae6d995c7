import LessonDeck.Token.Basic
/-!
# Why a row of cards is no command

Every reason is a value of its own, down to the fault on a single card; the wording and the stable
code of a reason are functions of it.
-/

namespace LessonDeck

inductive Construct where
  | ifStatement
  | whileLoop
  | forLoop
  deriving Repr, DecidableEq

namespace Construct

def name : Construct → String
  | ifStatement => "if statement"
  | whileLoop => "while loop"
  | forLoop => "for loop"

/-- The lowest level that admits a control structure. -/
def requiredLevel : Construct → Nat
  | ifStatement => 2
  | whileLoop => 3
  | forLoop => 4

end Construct

inductive Slot where
  | thenBranch
  | elseBranch
  | whileBody
  | forBody
  deriving Repr, DecidableEq

def Slot.name : Slot → String
  | thenBranch => "then branch"
  | elseBranch => "else branch"
  | whileBody => "while body"
  | forBody => "for body"

inductive CardFault where
  | notANumber (text : String)
  | unknownOperator (text : String)
  | invalidName (text : String)
  | unknownComparison (text : String)
  | unknownKeyword (text : String)
  deriving Repr, DecidableEq

def CardFault.message : CardFault → String
  | notANumber t => "expected a number, got '" ++ t ++ "'"
  | unknownOperator t => "unknown operator '" ++ t ++ "'"
  | invalidName t => "invalid variable name '" ++ t ++ "'"
  | unknownComparison t => "unknown comparison '" ++ t ++ "'"
  | unknownKeyword t => "unknown keyword '" ++ t ++ "'"

inductive ConditionFault where
  /-- Three cards, but not a variable, a comparison and a number. -/
  | wrongCards
  | wrongCount (count : Nat)
  deriving Repr, DecidableEq

def ConditionFault.message : ConditionFault → String
  | wrongCards => "expected variable, comparison, number"
  | wrongCount n => "expected 3 cards, found " ++ Text.showNat n

inductive StructureFault where
  | noStatement
  | printNotAlone
  | noEquals
  | nestedControl
  | noAssignment
  | noValue
  | invalidExpression
  | notANumber (found : Meaning)
  | wrongValueCount
  | doNotNext
  deriving Repr, DecidableEq

def StructureFault.message : StructureFault → String
  | noStatement => "expected a statement"
  | printNotAlone => "print must be the only card"
  | noEquals => "expected '=' after variable"
  | nestedControl => "nested control structures are not allowed"
  | noAssignment => "command must start with an assignment"
  | noValue => "expected a value after '='"
  | invalidExpression => "invalid expression format"
  | notANumber found => "expected a number after '=', got " ++ found.text
  | wrongValueCount => "invalid command structure for level 1"
  | doNotNext => "expected 'do' directly after the for card"

inductive CommandError where
  | emptyCommand
  | invalidLevel (level : Nat)
  /-- A card, by its place counted from zero, that cannot be read as its kind. -/
  | malformedCard (place : Nat) (fault : CardFault)
  | missingThen
  | missingKeyword (word : Keyword) (construct : Construct)
  | invalidCondition (fault : ConditionFault)
  | invalidForHeader (text : String)
  | invalidStructure (fault : StructureFault)
  | invalidBranch (slot : Slot) (cause : CommandError)
  | levelTooLow (construct : Construct) (level : Nat)
  | trailingCards (construct : Construct)
  deriving Repr, DecidableEq

namespace CommandError

def message : CommandError → String
  | emptyCommand => "empty command"
  | invalidLevel n => "invalid level " ++ Text.showNat n ++ ": expected 1 to 4"
  | malformedCard place fault => "card " ++ Text.showNat (place + 1) ++ ": " ++ fault.message
  | missingThen => "missing 'then' in if statement"
  | missingKeyword word construct => "missing '" ++ word.name ++ "' in " ++ construct.name
  | invalidCondition fault => "invalid condition: " ++ fault.message
  | invalidForHeader text => "invalid for loop header '" ++ text ++ "'"
  | invalidStructure fault => fault.message
  | invalidBranch slot cause => "invalid " ++ slot.name ++ ": " ++ cause.message
  | levelTooLow construct level =>
    construct.name ++ " requires level " ++ Text.showNat construct.requiredLevel ++
      ", current level is " ++ Text.showNat level
  | trailingCards construct => "unexpected cards after 'end' in " ++ construct.name

def code : CommandError → String
  | emptyCommand => "empty_command"
  | invalidLevel _ => "invalid_level"
  | malformedCard _ _ => "malformed_card"
  | missingThen => "missing_then"
  | missingKeyword _ _ => "missing_keyword"
  | invalidCondition _ => "invalid_condition"
  | invalidForHeader _ => "invalid_for_header"
  | invalidStructure _ => "invalid_structure"
  | invalidBranch _ _ => "invalid_branch"
  | levelTooLow _ _ => "level_too_low"
  | trailingCards _ => "trailing_cards"

end CommandError

end LessonDeck
