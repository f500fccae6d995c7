import LessonDeck.Machine.Journal
/-!
# Outcomes

What comes of running a command: a fault that stops it, or a summary with the variables it wrote,
the values it printed, and the way control went.
-/

namespace LessonDeck

inductive Fault where
  /-- A variable was read that holds nothing. -/
  | uninitialized (name : String)
  | divisionByZero
  deriving Repr, DecidableEq

namespace Fault

def message : Fault → String
  | uninitialized name => "variable '" ++ name ++ "' is not initialized"
  | divisionByZero => "division by zero"

def code : Fault → String
  | uninitialized _ => "uninitialized_variable"
  | divisionByZero => "division_by_zero"

end Fault

def Variables.read (vars : Variables) (name : String) : Except Fault Int64 :=
  match vars.value? name with
  | some v => .ok v
  | none => .error (.uninitialized name)

structure Printed where
  name : String
  value : Int64
  deriving Repr, DecidableEq

inductive Flow where
  | statement
  /-- A condition that was met or not, and whether a branch ran. -/
  | branch (met executed : Bool)
  /-- A loop, with its number of iterations and whether it was stopped at the cap. -/
  | loop (iterations : Nat) (maxReached : Bool)
  deriving Repr, DecidableEq

structure Outcome where
  summary : String
  /-- The variables that were written, with what they hold in the end. -/
  updated : Variables
  printed : List Printed
  flow : Flow
  deriving Repr, DecidableEq

end LessonDeck
