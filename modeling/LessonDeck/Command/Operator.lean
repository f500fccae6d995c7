import LessonDeck.Text.Blank
import LessonDeck.Value
/-!
# Operators

The four arithmetic operators between a variable and a literal, and the six comparisons of
conditions.  Addition, subtraction and multiplication stop at the ends of the 64-bit range;
division drops the fraction.
-/

namespace LessonDeck

inductive Arith where
  | add
  | sub
  | mul
  | div
  deriving Repr, DecidableEq

namespace Arith

def all : List Arith :=
  [add, sub, mul, div]

def symbol : Arith → String
  | add => "+"
  | sub => "-"
  | mul => "*"
  | div => "/"

def ofSymbol? (symbol : String) : Option Arith :=
  all.find? fun op => op.symbol == symbol

/-- The operator whose sign a text holds, blanks around it aside. -/
def ofText? (text : String) : Option Arith :=
  all.find? fun op => op.symbol.toList == Text.trim text.toList

/-- The result of an operator on two words; there is none when the divisor is zero. -/
def apply (op : Arith) (left right : Int64) : Option Int64 :=
  match op with
  | add => some (Int64.ofIntClamp (left.toInt + right.toInt))
  | sub => some (Int64.ofIntClamp (left.toInt - right.toInt))
  | mul => some (Int64.ofIntClamp (left.toInt * right.toInt))
  | div => if right = 0 then none else some (left / right)

end Arith

inductive Comparison where
  | eq
  | less
  | greater
  | lessEq
  | greaterEq
  | notEq
  deriving Repr, DecidableEq

namespace Comparison

def all : List Comparison :=
  [eq, less, greater, lessEq, greaterEq, notEq]

def symbol : Comparison → String
  | eq => "=="
  | less => "<"
  | greater => ">"
  | lessEq => "<="
  | greaterEq => ">="
  | notEq => "!="

def ofSymbol? (symbol : String) : Option Comparison :=
  all.find? fun op => op.symbol == symbol

def ofText? (text : String) : Option Comparison :=
  all.find? fun op => op.symbol.toList == Text.trim text.toList

def holds (op : Comparison) (left right : Int64) : Bool :=
  match op with
  | eq => left == right
  | less => left < right
  | greater => right < left
  | lessEq => left ≤ right
  | greaterEq => right ≤ left
  | notEq => left != right

end Comparison

end LessonDeck
