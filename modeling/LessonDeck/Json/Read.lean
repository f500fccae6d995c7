import LessonDeck.Json.Number
/-!
# Reading JSON

Strict JSON: blanks may surround every token, nothing may follow the value, commas stand between
items only, strings hold no raw control characters.
-/

namespace LessonDeck.Json

def skipBlanks : List Char → List Char
  | c :: cs => if c = ' ' ∨ c = '\n' ∨ c = '\t' ∨ c = '\r' then skipBlanks cs else c :: cs
  | [] => []

def hexValue? (c : Char) : Option Nat :=
  if c.isDigit then some (c.toNat - 48)
  else if 'a' ≤ c ∧ c ≤ 'f' then some (c.toNat - 87)
  else if 'A' ≤ c ∧ c ≤ 'F' then some (c.toNat - 55)
  else none

def hex4? (a b c d : Char) : Option Nat := do
  return ((← hexValue? a) * 16 + (← hexValue? b)) * 256 + ((← hexValue? c) * 16 + (← hexValue? d))

/-- The character behind a backslash of one letter. -/
def unescape? : Char → Option Char
  | '"' => some '"'
  | '\\' => some '\\'
  | '/' => some '/'
  | 'b' => some (Char.ofNat 8)
  | 'f' => some (Char.ofNat 12)
  | 'n' => some '\n'
  | 'r' => some '\r'
  | 't' => some '\t'
  | _ => none

/-- Whether a number is the first half of a surrogate pair. -/
def isHighHalf (n : Nat) : Bool :=
  0xD800 ≤ n && n ≤ 0xDBFF

/-- Whether a number is the second half of a surrogate pair. -/
def isLowHalf (n : Nat) : Bool :=
  0xDC00 ≤ n && n ≤ 0xDFFF

def pairChar (high low : Nat) : Char :=
  Char.ofNat (0x10000 + (high - 0xD800) * 0x400 + (low - 0xDC00))

/-- The characters so far, unless they end in the first half of a pair that found no second. -/
def settled (acc : Option (List Char)) (high : Option Nat) : Option (List Char) :=
  if high.isSome then none else acc

/-- Reads a string behind its opening quotation mark.  The characters so far are held in reverse,
and with them the first half of a surrogate pair that was read last.  They are given up at half of
a pair, but the string is read to its end. -/
def readText (acc : Option (List Char)) (high : Option Nat) :
    List Char → Option (Option String × List Char)
  | [] => none
  | '"' :: rest => some ((settled acc high).map fun cs => String.ofList cs.reverse, rest)
  | '\\' :: 'u' :: a :: b :: c :: d :: rest =>
    match hex4? a b c d with
    | none => none
    | some n =>
      if isLowHalf n then
        match high with
        | some h => readText (acc.map (pairChar h n :: ·)) none rest
        | none => readText none none rest
      else if isHighHalf n then readText (settled acc high) (some n) rest
      else readText ((settled acc high).map (Char.ofNat n :: ·)) none rest
  | '\\' :: e :: rest =>
    match unescape? e with
    | none => none
    | some c => readText ((settled acc high).map (c :: ·)) none rest
  | c :: rest =>
    if c.toNat < 32 then none else readText ((settled acc high).map (c :: ·)) none rest

mutual

/-- Reads a value at the front of a text, blanks in front of it aside.  The fuel bounds the nesting
and the number of items. -/
def readValue : Nat → List Char → Option (Json × List Char)
  | 0, _ => none
  | fuel + 1, cs =>
    match skipBlanks cs with
    | 'n' :: 'u' :: 'l' :: 'l' :: rest => some (null, rest)
    | 't' :: 'r' :: 'u' :: 'e' :: rest => some (bool true, rest)
    | 'f' :: 'a' :: 'l' :: 's' :: 'e' :: rest => some (bool false, rest)
    | '"' :: rest =>
      match readText (some []) none rest with
      | none => none
      | some (none, rest) => some (garbled, rest)
      | some (some s, rest) => some (string s, rest)
    | '[' :: rest =>
      match skipBlanks rest with
      | ']' :: rest => some (array [], rest)
      | rest => readItems fuel [] rest
    | '{' :: rest =>
      match skipBlanks rest with
      | '}' :: rest => some (object [], rest)
      | rest => readMembers fuel (some []) rest
    | rest => readNumber rest

/-- Reads the items of an array that has at least one more; those before are held in reverse. -/
def readItems : Nat → List Json → List Char → Option (Json × List Char)
  | 0, _, _ => none
  | fuel + 1, before, cs =>
    match readValue fuel cs with
    | none => none
    | some (item, rest) =>
      match skipBlanks rest with
      | ',' :: rest => readItems fuel (item :: before) rest
      | ']' :: rest => some (array (item :: before).reverse, rest)
      | _ => none

/-- Reads the members of an object that has at least one more; those before are held in reverse,
and given up at a name that denotes nothing. -/
def readMembers : Nat → Option (List (String × Json)) → List Char → Option (Json × List Char)
  | 0, _, _ => none
  | fuel + 1, before, cs =>
    match skipBlanks cs with
    | '"' :: rest =>
      match readText (some []) none rest with
      | none => none
      | some (name, rest) =>
        match skipBlanks rest with
        | ':' :: rest =>
          match readValue fuel rest with
          | none => none
          | some (value, rest) =>
            let members := before.bind fun ms => name.map fun n => (n, value) :: ms
            match skipBlanks rest with
            | ',' :: rest => readMembers fuel members rest
            | '}' :: rest =>
              some (members.elim garbled fun ms => object ms.reverse, rest)
            | _ => none
        | _ => none
    | _ => none

end

def parse? (text : String) : Option Json :=
  let cs := text.toList
  match readValue (2 * cs.length + 2) cs with
  | some (value, rest) => if (skipBlanks rest).isEmpty then some value else none
  | none => none

end LessonDeck.Json
