import LessonDeck.Color
/-!
# Cards

What is laid on the table: a card has a kind, a value printed on it, the color it is dealt in, and
an identifier.  Control-flow cards carry one of six keywords.
-/

namespace LessonDeck

inductive CardKind where
  | number
  | operator
  | assign
  | varref
  | print
  | conditional
  | compare
  | loop
  | forLoop
  | logical
  deriving Repr, DecidableEq

namespace CardKind

def all : List CardKind :=
  [number, operator, assign, varref, print, conditional, compare, loop, forLoop, logical]

def name : CardKind → String
  | number => "number"
  | operator => "operator"
  | assign => "assign"
  | varref => "varref"
  | print => "print"
  | conditional => "conditional"
  | compare => "compare"
  | loop => "loop"
  | forLoop => "for"
  | logical => "logical"

def ofName? (name : String) : Option CardKind :=
  all.find? fun k => k.name == name

def color : CardKind → Color
  | number => .green
  | assign | conditional | loop | forLoop => .red
  | operator | compare | logical => .blue
  | varref | print => .yellow

end CardKind

/-- An instruction card.  Cards are reusable: a row may hold the same card twice. -/
structure Card where
  id : String
  kind : CardKind
  value : String
  color : Color
  deriving Repr, DecidableEq

/-- A card of a kind and value in the color of its kind, identified by both. -/
def Card.deal (kind : CardKind) (value : String) : Card :=
  ⟨kind.name ++ ":" ++ value, kind, value, kind.color⟩

inductive Keyword where
  | ifWord
  | thenWord
  | elseWord
  | whileWord
  | doWord
  | endWord
  deriving Repr, DecidableEq

namespace Keyword

def all : List Keyword :=
  [ifWord, thenWord, elseWord, whileWord, doWord, endWord]

def name : Keyword → String
  | ifWord => "if"
  | thenWord => "then"
  | elseWord => "else"
  | whileWord => "while"
  | doWord => "do"
  | endWord => "end"

/-- The keyword printed on a card, blanks around it aside. -/
def ofText? (text : String) : Option Keyword :=
  all.find? fun k => k.name.toList == Text.trim text.toList

end Keyword

end LessonDeck
