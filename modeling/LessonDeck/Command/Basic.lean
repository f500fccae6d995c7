import LessonDeck.Command.Operator
/-!
# Commands

The meaning of a row of cards.  A simple statement assigns, computes or prints; a command is a
simple statement or one control structure whose branches and bodies are simple statements, so that
control structures never nest.  Every command has one written form, its text.
-/

namespace LessonDeck

inductive Simple where
  | assign (name : String) (literal : Int64)
  /-- The variable takes the result of an operator on another variable and a literal. -/
  | compute (name : String) (left : String) (op : Arith) (right : Int64)
  | print (name : String)
  deriving Repr, DecidableEq

structure Condition where
  name : String
  op : Comparison
  literal : Int64
  deriving Repr, DecidableEq

inductive Command where
  | simple (statement : Simple)
  /-- One of two branches, the second of which may be missing. -/
  | branch (condition : Condition) (onTrue : Simple) (onFalse : Option Simple)
  | whileLoop (condition : Condition) (body : Simple)
  | forLoop (count : UInt32) (body : Simple)
  deriving Repr, DecidableEq

def Condition.text (c : Condition) : String :=
  c.name ++ " " ++ c.op.symbol ++ " " ++ Value.text c.literal

def Simple.text : Simple → String
  | assign v n => v ++ " = " ++ Value.text n
  | compute v l op n => v ++ " = " ++ l ++ " " ++ op.symbol ++ " " ++ Value.text n
  | print v => "print(" ++ v ++ ")"

def Command.text : Command → String
  | simple s => s.text
  | branch c t none => "if " ++ c.text ++ " then " ++ t.text
  | branch c t (some e) => "if " ++ c.text ++ " then " ++ t.text ++ " else " ++ e.text
  | whileLoop c b => "while " ++ c.text ++ " do " ++ b.text ++ " end"
  | forLoop n b => "for i = 1 to " ++ Text.showNat n.toNat ++ " do " ++ b.text ++ " end"

end LessonDeck
