import LessonDeck.Json.Basic
/-!
# Writing JSON

Two layouts: compact, without any blank, and indented by two blanks a level.  Both escape the same
characters: the quotation mark, the backslash and the control characters below U+0020.
-/

namespace LessonDeck.Json

open Text

def hexDigit (n : Nat) : Char :=
  if n < 10 then Char.ofNat (48 + n) else Char.ofNat (87 + n)

def escape (c : Char) : List Char :=
  if c = '"' then ['\\', '"']
  else if c = '\\' then ['\\', '\\']
  else if c = '\n' then ['\\', 'n']
  else if c = '\r' then ['\\', 'r']
  else if c = '\t' then ['\\', 't']
  else if c.toNat = 8 then ['\\', 'b']
  else if c.toNat = 12 then ['\\', 'f']
  else if c.toNat < 32 then
    ['\\', 'u', '0', '0', hexDigit (c.toNat / 16), hexDigit (c.toNat % 16)]
  else [c]

def quoted (s : String) : List Char :=
  '"' :: s.toList.flatMap escape ++ ['"']

/-- A double; what is no finite number is written as null. -/
def floatChars (x : Float) : List Char :=
  match Decimal.exchange? x with
  | some s => s.toList
  | none => "null".toList

mutual

def compactChars : Json → List Char
  | null => "null".toList
  | bool true => "true".toList
  | bool false => "false".toList
  | int n => intDigits n
  | float x => floatChars x
  | string s => quoted s
  | array items => '[' :: compactItems items ++ [']']
  | object members => '{' :: compactMembers members ++ ['}']
  | garbled => "null".toList

def compactItems : List Json → List Char
  | [] => []
  | [item] => compactChars item
  | item :: items => compactChars item ++ ',' :: compactItems items

def compactMembers : List (String × Json) → List Char
  | [] => []
  | [(name, value)] => quoted name ++ ':' :: compactChars value
  | (name, value) :: members =>
    quoted name ++ ':' :: compactChars value ++ ',' :: compactMembers members

end

def newLine (level : Nat) : List Char :=
  '\n' :: List.replicate (2 * level) ' '

mutual

/-- A value laid out over lines, itself so many levels deep; empty containers stay on one line. -/
def prettyChars : Nat → Json → List Char
  | _, null => "null".toList
  | _, bool true => "true".toList
  | _, bool false => "false".toList
  | _, int n => intDigits n
  | _, float x => floatChars x
  | _, string s => quoted s
  | level, array items =>
    if items.isEmpty then ['[', ']']
    else '[' :: prettyItems (level + 1) items ++ newLine level ++ [']']
  | level, object members =>
    if members.isEmpty then ['{', '}']
    else '{' :: prettyMembers (level + 1) members ++ newLine level ++ ['}']
  | _, garbled => "null".toList

def prettyItems : Nat → List Json → List Char
  | _, [] => []
  | level, [item] => newLine level ++ prettyChars level item
  | level, item :: items =>
    newLine level ++ prettyChars level item ++ ',' :: prettyItems level items

def prettyMembers : Nat → List (String × Json) → List Char
  | _, [] => []
  | level, [(name, value)] => newLine level ++ quoted name ++ ':' :: ' ' :: prettyChars level value
  | level, (name, value) :: members =>
    newLine level ++ quoted name ++ ':' :: ' ' :: prettyChars level value ++
      ',' :: prettyMembers level members

end

def compact (j : Json) : String :=
  String.ofList (compactChars j)

def pretty (j : Json) : String :=
  String.ofList (prettyChars 0 j)

end LessonDeck.Json
