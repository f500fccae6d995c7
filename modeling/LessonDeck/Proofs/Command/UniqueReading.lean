import LessonDeck.Proofs.Command.Deal
import LessonDeck.Proofs.Machine.Chronicle
import LessonDeck.Proofs.Text.Ending
/-!
# No two commands are written alike

A written command falls into words, and the words say where each of its parts ends: the word behind
the target of a statement is an equals sign, and behind that a number can be told from a variable.
Keywords are not needed for it, so that variables may be called like them.
-/

namespace LessonDeck

/-! ## Words of a text -/

namespace Text

/-- A word stands in one piece. -/
def Unbroken (word : String) : Prop :=
  Solid word.toList ∧ word.toList ≠ []

instance : DecidablePred Unbroken :=
  fun word ↦ inferInstanceAs (Decidable (Solid word.toList ∧ word.toList ≠ []))

/-- The text falls into the words. -/
def FallsInto (text : String) (run : List String) : Prop :=
  words text.toList = run.map String.toList

theorem Unbroken.fallsInto {word : String} (h : Unbroken word) : FallsInto word [word] :=
  words_of_solid h.1 h.2

theorem FallsInto.append {front back : String} {run run' : List String} (h : FallsInto front run)
    (h' : FallsInto back run') : FallsInto (front ++ " " ++ back) (run ++ run') := by
  have htext : (front ++ " " ++ back).toList = front.toList ++ ' ' :: back.toList := by simp
  rw [FallsInto, htext, words_append_blank rfl, List.map_append]
  exact congrArg₂ (· ++ ·) h h'

theorem FallsInto.behind {back : String} {run : List String} (h : FallsInto back run)
    (word : String) (hword : Unbroken word) : FallsInto (word ++ " " ++ back) (word :: run) :=
  hword.fallsInto.append h

theorem FallsInto.unique {text : String} {run run' : List String} (h : FallsInto text run)
    (h' : FallsInto text run') : run = run' :=
  List.map_injective_iff.mpr (fun _ _ ↦ String.toList_injective) (h.symm.trans h')

theorem inRanges_of_lt_head {n : ℕ} {ranges : List (ℕ × ℕ)} {first : ℕ × ℕ}
    (hfirst : ranges.head? = some first) (h : n < first.1) : inRanges n ranges = false := by
  cases ranges with
  | nil => exact nomatch hfirst
  | cons range ranges =>
      obtain rfl := Option.some.inj hfirst
      exact if_pos h

/-- Digits and signs come before all letters. -/
theorem startsName_of_toNat_lt {c : Char} (h : c.toNat < 'A'.toNat) : startsName c = false := by
  have hunderscore : c ≠ '_' := by
    rintro rfl
    exact absurd h (by decide)
  have hletter : isLetter c = false := by
    rw [isLetter, if_pos (h.trans (by decide))]
    exact inRanges_of_lt_head rfl h
  rw [startsName, hletter, Bool.false_or, beq_eq_false_iff_ne]
  exact hunderscore

theorem unbroken_showNat (n : ℕ) : Unbroken (showNat n) := by
  rw [Unbroken, showNat, String.toList_ofList]
  exact ⟨(isNumeral_natDigits n).solid, (isNumeral_natDigits n).1⟩

theorem showNat_injective : Function.Injective showNat := by
  intro m n h
  have hdigits : natDigits m = natDigits n := String.ofList_injective h
  have hm := readNat?_natDigits m
  rw [hdigits, readNat?_natDigits] at hm
  exact (Option.some.inj hm).symm

end Text

open Text

/-! ## Telling words apart -/

theorem Value.unbroken_text (v : Int64) : Unbroken (text v) := by
  rw [Unbroken, toList_text]
  exact ⟨solid_intDigits v.toInt, intDigits_ne_nil v.toInt⟩

namespace Arith

theorem unbroken_symbol (op : Arith) : Unbroken op.symbol := by
  cases op <;> decide

theorem ofSymbol?_symbol (op : Arith) : ofSymbol? op.symbol = some op := by
  cases op <;> rfl

theorem symbol_injective : Function.Injective symbol := by
  intro op op' h
  apply Option.some.inj
  rw [← ofSymbol?_symbol op, h, ofSymbol?_symbol]

end Arith

namespace Comparison

theorem unbroken_symbol (op : Comparison) : Unbroken op.symbol := by
  cases op <;> decide

theorem ofSymbol?_symbol (op : Comparison) : ofSymbol? op.symbol = some op := by
  cases op <;> rfl

theorem symbol_injective : Function.Injective symbol := by
  intro op op' h
  apply Option.some.inj
  rw [← ofSymbol?_symbol op, h, ofSymbol?_symbol]

end Comparison

/-- What a print statement looks like. -/
def printWord (name : String) : String :=
  "print(" ++ name ++ ")"

namespace IsVariable

variable {name : String}

theorem unbroken (h : IsVariable name) : Unbroken name :=
  ⟨solid_of_isName h, h.toList_ne_nil⟩

theorem notMem (h : IsVariable name) {c : Char} (hc : continuesName c = false) :
    c ∉ name.toList :=
  fun hmem ↦ Bool.false_ne_true (hc.symm.trans (continuesName_of_isName h hmem))

theorem ne_equals (h : IsVariable name) : name ≠ "=" := by
  rintro rfl
  exact h.notMem (by decide +kernel : continuesName '=' = false) (by decide)

theorem ne_text (h : IsVariable name) (v : Int64) : name ≠ Value.text v := by
  rintro rfl
  obtain ⟨c, hmem, hstart⟩ := exists_startsName_of_isName h
  rw [Value.toList_text] at hmem
  have hbefore : c.toNat < 'A'.toNat := by
    rcases of_mem_intDigits hmem with hdigit | rfl | rfl
    · exact (Char.isDigit_iff_toNat.mp hdigit).2.trans_lt (by decide)
    · decide
    · decide
  rw [startsName_of_toNat_lt hbefore] at hstart
  exact Bool.false_ne_true hstart

theorem unbroken_printWord (h : IsVariable name) : Unbroken (printWord name) := by
  have hopening : Solid "print(".toList := by decide
  have hclosing : Solid ")".toList := by decide
  rw [Unbroken, printWord, String.toList_append, String.toList_append]
  refine ⟨?_, by simp⟩
  exact List.forall_mem_append.mpr
    ⟨List.forall_mem_append.mpr ⟨hopening, solid_of_isName h⟩, hclosing⟩

theorem ne_printWord (h : IsVariable name) (other : String) : name ≠ printWord other := by
  rintro rfl
  refine h.notMem (by decide +kernel : continuesName '(' = false) ?_
  simp [printWord]

end IsVariable

/-! ## Commands whose names are names -/

def Simple.Named : Simple → Prop
  | assign name _ => IsVariable name
  | compute name left _ _ => IsVariable name ∧ IsVariable left
  | print name => IsVariable name

/-- The names are names of variables.  The literals may be any words, and the count as well. -/
def Command.Named : Command → Prop
  | simple s => s.Named
  | branch c onTrue onFalse => IsVariable c.name ∧ onTrue.Named ∧ ∀ s ∈ onFalse, s.Named
  | whileLoop c body => IsVariable c.name ∧ body.Named
  | forLoop _ body => body.Named

instance (s : Simple) : Decidable s.Named :=
  match s with
  | .assign name _ => inferInstanceAs (Decidable (IsVariable name))
  | .compute _ _ _ _ => inferInstanceAs (Decidable (_ ∧ _))
  | .print name => inferInstanceAs (Decidable (IsVariable name))

instance (c : Command) : Decidable c.Named :=
  match c with
  | .simple s => inferInstanceAs (Decidable s.Named)
  | .branch _ _ _ => inferInstanceAs (Decidable (_ ∧ _ ∧ _))
  | .whileLoop _ _ => inferInstanceAs (Decidable (_ ∧ _))
  | .forLoop _ body => inferInstanceAs (Decidable body.Named)

/-! ## The words of a command -/

def Simple.words : Simple → List String
  | assign name literal => [name, "=", Value.text literal]
  | compute name left op right => [name, "=", left, op.symbol, Value.text right]
  | print name => [printWord name]

def Condition.words (c : Condition) : List String :=
  [c.name, c.op.symbol, Value.text c.literal]

def elseWords : Option Simple → List String
  | none => []
  | some s => "else" :: s.words

def Command.words : Command → List String
  | simple s => s.words
  | branch c onTrue onFalse => "if" :: (c.words ++ "then" :: (onTrue.words ++ elseWords onFalse))
  | whileLoop c body => "while" :: (c.words ++ "do" :: (body.words ++ ["end"]))
  | forLoop count body =>
    "for" :: "i" :: "=" :: "1" :: "to" :: showNat count.toNat :: "do" :: (body.words ++ ["end"])

namespace Simple

variable {s t : Simple} {rest rest' : List String}

theorem fallsInto_words (h : s.Named) : FallsInto s.text s.words := by
  cases s with
  | assign name literal =>
      have htext : (assign name literal).text =
          name ++ " " ++ ("=" ++ " " ++ Value.text literal) := by
        rw [← String.toList_inj]
        simp [text]
      have hliteral := (Value.unbroken_text literal).fallsInto
      rw [htext]
      exact (hliteral.behind "=" (by decide)).behind name h.unbroken
  | compute name left op right =>
      obtain ⟨hname, hleft⟩ := h
      have htext : (compute name left op right).text = name ++ " " ++ ("=" ++ " " ++
          (left ++ " " ++ (op.symbol ++ " " ++ Value.text right))) := by
        rw [← String.toList_inj]
        simp [text]
      have hright := (Value.unbroken_text right).fallsInto.behind op.symbol op.unbroken_symbol
      rw [htext]
      exact ((hright.behind left hleft.unbroken).behind "=" (by decide)).behind name hname.unbroken
  | print name => exact h.unbroken_printWord.fallsInto

/-- The words of a statement end where they end, whatever follows them. -/
theorem words_append_inj (hs : s.Named) (ht : t.Named) (h : s.words ++ rest = t.words ++ rest') :
    s = t ∧ rest = rest' := by
  cases s with
  | assign name literal =>
      cases t with
      | assign name' literal' =>
          simp only [words, List.cons_append, List.nil_append, List.cons.injEq] at h
          obtain ⟨rfl, -, hliteral, hrest⟩ := h
          exact ⟨congrArg (assign name) (Value.text_injective hliteral), hrest⟩
      | compute name' left' op' right' =>
          have hword := (List.cons.inj (List.cons.inj (List.cons.inj h).2).2).1
          exact (ht.2.ne_text literal hword.symm).elim
      | print name' => exact (hs.ne_printWord name' (List.cons.inj h).1).elim
  | compute name left op right =>
      cases t with
      | assign name' literal' =>
          have hword := (List.cons.inj (List.cons.inj (List.cons.inj h).2).2).1
          exact (hs.2.ne_text literal' hword).elim
      | compute name' left' op' right' =>
          simp only [words, List.cons_append, List.nil_append, List.cons.injEq] at h
          obtain ⟨rfl, -, rfl, hop, hright, hrest⟩ := h
          obtain rfl := Arith.symbol_injective hop
          exact ⟨congrArg (compute name left op) (Value.text_injective hright), hrest⟩
      | print name' => exact (hs.1.ne_printWord name' (List.cons.inj h).1).elim
  | print name =>
      cases t with
      | assign name' literal' => exact (ht.ne_printWord name (List.cons.inj h).1.symm).elim
      | compute name' left' op' right' =>
          exact (ht.1.ne_printWord name (List.cons.inj h).1.symm).elim
      | print name' =>
          obtain ⟨hword, hrest⟩ := List.cons.inj h
          have hname : name = name' := by simpa [printWord] using hword
          exact ⟨congrArg print hname, hrest⟩

theorem words_injective (hs : s.Named) (ht : t.Named) (h : s.words = t.words) : s = t :=
  (words_append_inj hs ht (congrArg (· ++ []) h)).1

/-- A statement of more than one word has an equals sign for the second. -/
theorem words_ne (s : Simple) (first : String) {second : String} (h : second ≠ "=")
    (rest : List String) : s.words ≠ first :: second :: rest := by
  intro hwords
  cases s with
  | assign name literal => exact h (List.cons.inj (List.cons.inj hwords).2).1.symm
  | compute name left op right => exact h (List.cons.inj (List.cons.inj hwords).2).1.symm
  | print name => exact nomatch (List.cons.inj hwords).2

end Simple

namespace Condition

variable {c c' : Condition} {rest rest' : List String}

theorem fallsInto_words (h : IsVariable c.name) : FallsInto c.text c.words := by
  have htext : c.text = c.name ++ " " ++ (c.op.symbol ++ " " ++ Value.text c.literal) := by
    rw [← String.toList_inj]
    simp [text]
  have hliteral := (Value.unbroken_text c.literal).fallsInto
  rw [htext]
  exact (hliteral.behind c.op.symbol c.op.unbroken_symbol).behind c.name h.unbroken

theorem words_append_inj (h : c.words ++ rest = c'.words ++ rest') : c = c' ∧ rest = rest' := by
  obtain ⟨name, op, literal⟩ := c
  obtain ⟨name', op', literal'⟩ := c'
  simp only [words, List.cons_append, List.nil_append, List.cons.injEq] at h
  obtain ⟨rfl, hop, hliteral, hrest⟩ := h
  obtain rfl := Comparison.symbol_injective hop
  exact ⟨congrArg (mk name op) (Value.text_injective hliteral), hrest⟩

end Condition

namespace Command

variable {c c' : Command}

theorem elseWords_injective {onFalse onFalse' : Option Simple} (h : ∀ s ∈ onFalse, s.Named)
    (h' : ∀ s ∈ onFalse', s.Named) (hwords : elseWords onFalse = elseWords onFalse') :
    onFalse = onFalse' := by
  cases onFalse with
  | none =>
      cases onFalse' with
      | none => rfl
      | some t => exact nomatch hwords
  | some s =>
      cases onFalse' with
      | none => exact nomatch hwords
      | some t =>
          exact congrArg some (Simple.words_injective (h s rfl) (h' t rfl) (List.cons.inj hwords).2)

theorem fallsInto_words (h : c.Named) : FallsInto c.text c.words := by
  have hend : FallsInto "end" ["end"] := Unbroken.fallsInto (by decide)
  cases c with
  | simple s => exact Simple.fallsInto_words h
  | branch b t f =>
      obtain ⟨hname, htrue, hfalse⟩ := h
      have hcondition := Condition.fallsInto_words hname
      have hstatement := Simple.fallsInto_words htrue
      cases f with
      | none =>
          have htext : (branch b t none).text =
              "if" ++ " " ++ (b.text ++ " " ++ ("then" ++ " " ++ t.text)) := by
            rw [← String.toList_inj]
            simp [text]
          rw [htext, words, elseWords, List.append_nil]
          have hbranch := hstatement.behind "then" (by decide)
          exact (hcondition.append hbranch).behind "if" (by decide)
      | some e =>
          have htext : (branch b t (some e)).text = "if" ++ " " ++ (b.text ++ " " ++
              ("then" ++ " " ++ (t.text ++ " " ++ ("else" ++ " " ++ e.text)))) := by
            rw [← String.toList_inj]
            simp [text]
          have hother := (Simple.fallsInto_words (hfalse e rfl)).behind "else" (by decide)
          have hbranches := (hstatement.append hother).behind "then" (by decide)
          rw [htext]
          exact (hcondition.append hbranches).behind "if" (by decide)
  | whileLoop b body =>
      have htext : (whileLoop b body).text =
          "while" ++ " " ++ (b.text ++ " " ++ ("do" ++ " " ++ (body.text ++ " " ++ "end"))) := by
        rw [← String.toList_inj]
        simp [text]
      have hbody := ((Simple.fallsInto_words h.2).append hend).behind "do" (by decide)
      rw [htext]
      exact ((Condition.fallsInto_words h.1).append hbody).behind "while" (by decide)
  | forLoop n body =>
      have htext : (forLoop n body).text = "for" ++ " " ++ ("i" ++ " " ++ ("=" ++ " " ++ ("1" ++
          " " ++ ("to" ++ " " ++ (showNat n.toNat ++ " " ++ ("do" ++ " " ++ (body.text ++ " " ++
            "end"))))))) := by
        rw [← String.toList_inj]
        simp [text]
      have hbody := ((Simple.fallsInto_words h).append hend).behind "do" (by decide)
      have hcount := hbody.behind (showNat n.toNat) (unbroken_showNat n.toNat)
      have hlimits := (hcount.behind "to" (by decide)).behind "1" (by decide)
      rw [htext]
      exact ((hlimits.behind "=" (by decide)).behind "i" (by decide)).behind "for" (by decide)

theorem words_injective (h : c.Named) (h' : c'.Named) (hwords : c.words = c'.words) : c = c' := by
  cases c with
  | simple s =>
      cases c' with
      | simple s' => exact congrArg simple (Simple.words_injective h h' hwords)
      | branch b t f => exact (s.words_ne _ h'.1.ne_equals _ hwords).elim
      | whileLoop b body => exact (s.words_ne _ h'.1.ne_equals _ hwords).elim
      | forLoop n body => exact (s.words_ne _ (by decide) _ hwords).elim
  | branch b t f =>
      cases c' with
      | simple s' => exact (s'.words_ne _ h.1.ne_equals _ hwords.symm).elim
      | branch b' t' f' =>
          obtain ⟨rfl, hbranches⟩ := Condition.words_append_inj (List.cons.inj hwords).2
          obtain ⟨rfl, helse⟩ := Simple.words_append_inj h.2.1 h'.2.1 (List.cons.inj hbranches).2
          exact congrArg (branch b t) (elseWords_injective h.2.2 h'.2.2 helse)
      | whileLoop b' body' => exact absurd (List.cons.inj hwords).1 (by decide)
      | forLoop n' body' => exact absurd (List.cons.inj hwords).1 (by decide)
  | whileLoop b body =>
      cases c' with
      | simple s' => exact (s'.words_ne _ h.1.ne_equals _ hwords.symm).elim
      | branch b' t' f' => exact absurd (List.cons.inj hwords).1 (by decide)
      | whileLoop b' body' =>
          obtain ⟨rfl, hbody⟩ := Condition.words_append_inj (List.cons.inj hwords).2
          obtain ⟨rfl, -⟩ := Simple.words_append_inj h.2 h'.2 (List.cons.inj hbody).2
          rfl
      | forLoop n' body' => exact absurd (List.cons.inj hwords).1 (by decide)
  | forLoop n body =>
      cases c' with
      | simple s' => exact (s'.words_ne _ (by decide) _ hwords.symm).elim
      | branch b' t' f' => exact absurd (List.cons.inj hwords).1 (by decide)
      | whileLoop b' body' => exact absurd (List.cons.inj hwords).1 (by decide)
      | forLoop n' body' =>
          simp only [words, List.cons.injEq, true_and] at hwords
          obtain ⟨hcount, hbody⟩ := hwords
          obtain rfl := UInt32.toNat_inj.mp (showNat_injective hcount)
          obtain ⟨rfl, -⟩ := Simple.words_append_inj h h' hbody
          rfl

theorem eq_of_text_eq (h : c.Named) (h' : c'.Named) (htext : c.text = c'.text) : c = c' := by
  apply words_injective h h'
  have hwords := fallsInto_words h
  rw [htext] at hwords
  exact hwords.unique (fallsInto_words h')

end Command

/-- A written command can be read in one way only.  So when a command fails, the entry that is made
for it says which command it was. -/
theorem text_identifies_command {c : Command} (h : c.Named) :
    (∀ c' : Command, c'.Named → c.text = c'.text → c = c') ∧
      ∀ (m : Machine) (who : Signature) (fault : Fault), (m.execute who c).1 = .error fault →
        ∃ e : Entry, (m.execute who c).2.journal.toList = m.journal.toList ++ [e] ∧
          e.kind = .error ∧ e.action = c.text ∧
            ∀ c' : Command, c'.Named → e.action = c'.text → c' = c := by
  refine ⟨fun c' h' htext ↦ Command.eq_of_text_eq h h' htext, ?_⟩
  intro m who fault hfault
  have hrun : m.execute who c = (.error fault, (m.execute who c).2) := Prod.ext hfault rfl
  refine ⟨_, Machine.journal_of_execute_error hrun, rfl, rfl, ?_⟩
  intro c' h' haction
  exact (Command.eq_of_text_eq h h' haction).symm

/-- Variables that are called like keywords. -/
theorem text_identifies_command_keywords :
    let c : Command :=
      .branch ⟨"then", .lessEq, Int64.minValue⟩ (.print "else") (some (.compute "if" "end" .div 0))
    c.text = "if then <= -9223372036854775808 then print(else) else if = end / 0" ∧
      ∃ e : Entry, ((Machine.new 50).execute (.once "g1" .epoch) c).2.journal.toList = [e] ∧
        e.action = c.text ∧ ∀ c' : Command, c'.Named → e.action = c'.text → c' = c := by
  intro c
  have hnamed : c.Named := by decide +kernel
  have hfault : ((Machine.new 50).execute (.once "g1" .epoch) c).1 = .error (.uninitialized "then") := by
    decide +kernel
  obtain ⟨e, hjournal, -, haction, hunique⟩ :=
    (text_identifies_command hnamed).2 (Machine.new 50) (.once "g1" .epoch) _ hfault
  exact ⟨by decide +kernel, e, hjournal, haction, hunique⟩

end LessonDeck
