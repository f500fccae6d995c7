import LessonDeck.Card
import LessonDeck.Command.Operator
/-!
# Tokens

A token is one card read for its meaning: the number on a number card, the variable on an assign
card, the bound on a for card.
-/

namespace LessonDeck

inductive Meaning where
  /-- A literal, already clamped to the range of values. -/
  | number (value : Int64)
  /-- A card that holds nothing but the equals sign. -/
  | equals
  | operator (op : Arith)
  /-- The target of an assignment; the equals sign may be printed on the same card. -/
  | target (name : String) (embedsEquals : Bool)
  | varref (name : String)
  | print (name : String)
  | keyword (word : Keyword)
  | compare (op : Comparison)
  | forHeader (count : UInt32)
  /-- A logical word.  Such cards are dealt but belong to no command. -/
  | logical (text : String)
  deriving Repr, DecidableEq

def Meaning.text : Meaning → String
  | number n => "number " ++ Value.text n
  | equals => "'='"
  | operator op => "operator '" ++ op.symbol ++ "'"
  | target v _ => "assignment to '" ++ v ++ "'"
  | varref v => "variable '" ++ v ++ "'"
  | print v => "print(" ++ v ++ ")"
  | keyword w => "'" ++ w.name ++ "'"
  | compare op => "comparison '" ++ op.symbol ++ "'"
  | forHeader n => "for i = 1 to " ++ Text.showNat n.toNat
  | logical t => "logical '" ++ t ++ "'"

structure Token where
  meaning : Meaning
  /-- The place of the card in its row, counted from zero. -/
  place : Nat
  /-- The printed value without the blanks around it. -/
  text : String
  deriving Repr, DecidableEq

end LessonDeck
