import LessonDeck.Proofs.Command.WellFormed
import LessonDeck.Proofs.Text.Numeral
/-!
# Dealing a command

Every well-formed command has canonical cards: those that print its written form, piece by piece,
with the equals sign on the card of the target.  Each of these cards says what it was dealt for, and
what they say together is laid out by a derivation of the command.
-/

namespace LessonDeck

/-! ## Canonical cards -/

/-- The kind that a keyword is dealt as. -/
def Keyword.cardKind : Keyword → CardKind
  | ifWord | thenWord | elseWord => .conditional
  | whileWord | doWord | endWord => .loop

namespace Card

def ofTarget (name : String) : Card :=
  deal .assign (name ++ " =")

def ofNumber (n : Int64) : Card :=
  deal .number (Value.text n)

def ofVariable (name : String) : Card :=
  deal .varref name

def ofArith (op : Arith) : Card :=
  deal .operator op.symbol

def ofComparison (op : Comparison) : Card :=
  deal .compare op.symbol

def ofPrint (name : String) : Card :=
  deal .print ("print(" ++ name ++ ")")

def ofKeyword (word : Keyword) : Card :=
  deal word.cardKind word.name

def ofCount (count : UInt32) : Card :=
  deal .forLoop ("for i = 1 to " ++ Text.showNat count.toNat)

end Card

def Simple.deal : Simple → List Card
  | assign name literal => [.ofTarget name, .ofNumber literal]
  | compute name left op right =>
    [.ofTarget name, .ofVariable left, .ofArith op, .ofNumber right]
  | print name => [.ofPrint name]

def Condition.deal (c : Condition) : List Card :=
  [.ofVariable c.name, .ofComparison c.op, .ofNumber c.literal]

def Command.deal : Command → List Card
  | simple s => s.deal
  | branch c onTrue none =>
    .ofKeyword .ifWord :: (c.deal ++ .ofKeyword .thenWord :: onTrue.deal)
  | branch c onTrue (some onFalse) =>
    .ofKeyword .ifWord ::
      (c.deal ++ .ofKeyword .thenWord :: (onTrue.deal ++ .ofKeyword .elseWord :: onFalse.deal))
  | whileLoop c body =>
    .ofKeyword .whileWord ::
      (c.deal ++ .ofKeyword .doWord :: (body.deal ++ [.ofKeyword .endWord]))
  | forLoop count body =>
    .ofCount count :: .ofKeyword .doWord :: (body.deal ++ [.ofKeyword .endWord])

/-- The lowest level that admits a command. -/
def Command.level : Command → ℕ
  | simple _ => 1
  | branch _ _ _ => 2
  | whileLoop _ _ => 3
  | forLoop _ _ => 4

/-! ## The canonical derivation -/

open Grammar

def Simple.canonical : Simple → Statement
  | assign name literal => .assign (.embedded name) literal
  | compute name left op right => .compute (.embedded name) left op right
  | print name => .print name

def Command.canonical : Command → Derivation
  | simple s => .statement s.canonical
  | branch c onTrue none => .ifThen c onTrue.canonical
  | branch c onTrue (some onFalse) => .ifThenElse c onTrue.canonical onFalse.canonical
  | whileLoop c body => .whileDo c body.canonical
  | forLoop count body => .forDo count body.canonical

theorem Simple.simple_canonical (s : Simple) : s.canonical.simple = s := by
  cases s <;> rfl

theorem Command.command_canonical (c : Command) : c.canonical.command = c := by
  cases c with
  | simple s => exact congrArg simple s.simple_canonical
  | branch c onTrue onFalse =>
      cases onFalse with
      | none => exact congrArg (branch c · none) onTrue.simple_canonical
      | some onFalse =>
          exact congrArg₂ (fun s t ↦ branch c s (some t)) onTrue.simple_canonical
            onFalse.simple_canonical
  | whileLoop c body => exact congrArg (whileLoop c) body.simple_canonical
  | forLoop count body => exact congrArg (forLoop count) body.simple_canonical

theorem Command.level_canonical (c : Command) : c.canonical.level = c.level := by
  cases c with
  | branch c onTrue onFalse => cases onFalse <;> rfl
  | _ => rfl

/-! ## Values that are read back -/

theorem IsVariable.toList_ne_nil {name : String} (h : IsVariable name) : name.toList ≠ [] := by
  intro hnil
  rw [IsVariable, hnil] at h
  exact Bool.false_ne_true h

namespace Meaning

theorem nameOf_toList {name : String} (h : IsVariable name) : nameOf name.toList = .ok name := by
  rw [nameOf, if_pos (show Text.isName name.toList = true from h), String.ofList_toList]

theorem ofNumber_intDigits {n : Int64} (h : Value.InRange n) :
    ofNumber (Text.intDigits n.toInt) = .ok (number n) := by
  have hread := Text.readInt64_intDigits (Int64.le_toInt n) (Int64.toInt_le n)
  rw [ofNumber, hread]
  dsimp only
  rw [Int64.ofInt_toInt, Value.clamp_of_inRange h]

theorem ofAssign_embedded {name : String} (h : IsVariable name) :
    ofAssign (name.toList ++ [' ', '=']) = .ok (target name true) := by
  have hsplit : name.toList ++ [' ', '='] = (name.toList ++ [' ']) ++ ['='] := by simp
  have hne : name.toList ++ [' ', '='] ≠ ['='] := by
    intro heq
    have hlength := congrArg List.length heq
    simp at hlength
  rw [ofAssign, if_neg hne, hsplit, List.getLast?_concat, if_pos rfl, List.dropLast_concat,
    Text.trimEnd_concat_blank (by decide), (Text.solid_of_isName h).trimEnd, nameOf_toList h]
  rfl

theorem printArgument?_parenthesized {cs : List Char} (h : Text.Solid cs) :
    printArgument? ('p' :: 'r' :: 'i' :: 'n' :: 't' :: '(' :: (cs ++ [')'])) = some cs := by
  have hprefix : ['p', 'r', 'i', 'n', 't'].isPrefixOf
      ('p' :: 'r' :: 'i' :: 'n' :: 't' :: '(' :: (cs ++ [')'])) = true := rfl
  have hstart := Text.trimStart_cons (by decide : Text.isBlank '(' = false) (cs ++ [')'])
  rw [printArgument?, hprefix, if_pos rfl]
  simp only [List.drop_succ_cons, List.drop_zero, hstart]
  rw [List.getLast?_concat, if_pos rfl, List.dropLast_concat, h.trim]

theorem ofPrint_parenthesized {name : String} (h : IsVariable name) :
    ofPrint ('p' :: 'r' :: 'i' :: 'n' :: 't' :: '(' :: (name.toList ++ [')'])) =
      .ok (print name) := by
  -- With nothing between the parentheses the card would print the score.
  obtain ⟨first, rest, hname⟩ := List.exists_cons_of_ne_nil h.toList_ne_nil
  rw [ofPrint, printArgument?_parenthesized (Text.solid_of_isName h), hname]
  dsimp only
  rw [← hname, nameOf_toList h]
  rfl

theorem ofOperator_symbol (op : Arith) : ofOperator op.symbol.toList = .ok (operator op) := by
  cases op <;> rfl

theorem ofCompare_symbol (op : Comparison) : ofCompare op.symbol.toList = .ok (compare op) := by
  cases op <;> rfl

theorem ofKeyword_name (word : Keyword) : ofKeyword word.name.toList = .ok (keyword word) := by
  cases word <;> rfl

/-- What a for card has printed before its count. -/
def countPrefix : List Char :=
  ['f', 'o', 'r', ' ', 'i', ' ', '=', ' ', '1', ' ', 't', 'o', ' ']

theorem trim_countPrefix_append {ds : List Char} (h : Text.IsNumeral ds) :
    Text.trim (countPrefix ++ ds) = countPrefix ++ ds :=
  Text.trim_of_ends (by decide) h.solid h.1 countPrefix.tail

theorem words_countPrefix_append {ds : List Char} (h : Text.IsNumeral ds) :
    Text.words (countPrefix ++ ds) =
      [['f', 'o', 'r'], ['i'], ['='], ['1'], ['t', 'o'], ds] := by
  have hfixed : ∀ run ∈ [['f', 'o', 'r'], ['i'], ['='], ['1'], ['t', 'o']],
      Text.Solid run ∧ run ≠ [] := by decide +kernel
  have hcount : ∀ run ∈ [ds], Text.Solid run ∧ run ≠ [] := by
    simpa using ⟨h.solid, h.1⟩
  have hwords := List.forall_mem_append.mpr ⟨hfixed, hcount⟩
  have hjoin := Text.words_intercalate hwords (by decide : Text.isBlank ' ' = true)
  simpa [countPrefix] using hjoin

/-- No keyword begins as a for card does. -/
theorem ofText?_countPrefix_append {ds : List Char} (h : Text.IsNumeral ds) :
    Keyword.ofText? (String.ofList (countPrefix ++ ds)) = none := by
  refine List.find?_eq_none.mpr fun word _ ↦ ?_
  rw [String.toList_ofList, trim_countPrefix_append h, beq_iff_eq]
  cases word <;> simp [Keyword.name, countPrefix]

theorem ofFor_countPrefix_append {count : UInt32} (h : count.toNat ≤ maxForCount) :
    ofFor (countPrefix ++ Text.natDigits count.toNat) = .ok (forHeader count) := by
  have hdigits := Text.isNumeral_natDigits count.toNat
  have hcount : forCount? (countPrefix ++ Text.natDigits count.toNat) = some count := by
    rw [forCount?, words_countPrefix_append hdigits]
    simp only [Text.readNat?_natDigits, if_pos h, UInt32.ofNat_toNat]
  rw [ofFor, ofText?_countPrefix_append hdigits, hcount]

end Meaning

/-! ## What canonical cards say -/

/-- A card that says something and has no blanks around its value. -/
def Card.Shows (card : Card) (m : Meaning) : Prop :=
  card.Means m ∧ card.text = card.value

namespace Card

theorem shows_deal {kind : CardKind} {value : String} {m : Meaning} (cs : List Char)
    (hvalue : value = String.ofList cs) (htrim : Text.trim cs = cs)
    (hread : ∀ place, Meaning.read kind cs place = .ok m) : (deal kind value).Shows m := by
  have htext : Text.trim value.toList = cs := by rw [hvalue, String.toList_ofList, htrim]
  constructor
  · intro place
    change (Meaning.read kind (Text.trim value.toList) place).map _ = _
    rw [htext, hread]
    rfl
  · change String.ofList (Text.trim value.toList) = value
    rw [htext, hvalue]

theorem shows_ofTarget {name : String} (h : IsVariable name) :
    (ofTarget name).Shows (.target name true) := by
  have hsolid := Text.solid_of_isName h
  refine shows_deal (name.toList ++ [' ', '=']) ?_ ?_ fun place ↦ ?_
  · rw [String.ofList_append, String.ofList_toList]
  · obtain ⟨first, rest, hname⟩ := List.exists_cons_of_ne_nil h.toList_ne_nil
    have hsign : Text.Solid ['='] := by decide
    have htrim := Text.trim_of_ends (hsolid first (by simp [hname])) hsign (by decide)
      (rest ++ [' '])
    simpa [hname] using htrim
  · rw [Meaning.read, Meaning.ofAssign_embedded h]
    rfl

theorem shows_ofNumber {n : Int64} (h : Value.InRange n) : (ofNumber n).Shows (.number n) := by
  refine shows_deal _ rfl (Text.solid_intDigits n.toInt).trim fun place ↦ ?_
  rw [Meaning.read, Meaning.ofNumber_intDigits h]
  rfl

theorem shows_ofVariable {name : String} (h : IsVariable name) :
    (ofVariable name).Shows (.varref name) := by
  refine shows_deal _ String.ofList_toList.symm (Text.solid_of_isName h).trim fun place ↦ ?_
  rw [Meaning.read, Meaning.nameOf_toList h]
  rfl

theorem shows_ofArith (op : Arith) : (ofArith op).Shows (.operator op) := by
  refine shows_deal _ String.ofList_toList.symm ?_ fun place ↦ ?_
  · cases op <;> rfl
  · rw [Meaning.read, Meaning.ofOperator_symbol]
    rfl

theorem shows_ofComparison (op : Comparison) : (ofComparison op).Shows (.compare op) := by
  refine shows_deal _ String.ofList_toList.symm ?_ fun place ↦ ?_
  · cases op <;> rfl
  · rw [Meaning.read, Meaning.ofCompare_symbol]
    rfl

theorem shows_ofPrint {name : String} (h : IsVariable name) :
    (ofPrint name).Shows (.print name) := by
  refine shows_deal ('p' :: 'r' :: 'i' :: 'n' :: 't' :: '(' :: (name.toList ++ [')'])) ?_ ?_
    fun place ↦ ?_
  · simp [← String.toList_inj]
  · have hclose : Text.Solid [')'] := by decide
    exact Text.trim_of_ends (by decide) hclose (by decide)
      ('r' :: 'i' :: 'n' :: 't' :: '(' :: name.toList)
  · rw [Meaning.read, Meaning.ofPrint_parenthesized h]
    rfl

theorem shows_ofKeyword (word : Keyword) : (ofKeyword word).Shows (.keyword word) := by
  refine shows_deal _ String.ofList_toList.symm ?_ fun place ↦ ?_
  · cases word <;> rfl
  · have hread := Meaning.ofKeyword_name word
    cases word <;> rw [Keyword.cardKind, Meaning.read, hread] <;> rfl

theorem shows_ofCount {count : UInt32} (h : count.toNat ≤ maxForCount) :
    (ofCount count).Shows (.forHeader count) := by
  refine shows_deal (Meaning.countPrefix ++ Text.natDigits count.toNat) ?_ ?_ fun place ↦ ?_
  · rw [String.ofList_append]
    rfl
  · exact Meaning.trim_countPrefix_append (Text.isNumeral_natDigits count.toNat)
  · rw [Meaning.read, Meaning.ofFor_countPrefix_append h]

end Card

end LessonDeck
