import LessonDeck.Proofs.Text.Numeral
import LessonDeck.Value
/-!
# How texts end

A text parts in one way at its last blank, and so do texts that end in a mark and a word.  The word
may be a number, which ends in a digit and can be told from any other number.
-/

namespace LessonDeck

namespace Text

theorem append_blank_inj {front front' word word' : List Char} (hword : ' ' ∉ word)
    (hword' : ' ' ∉ word') (h : front ++ ' ' :: word = front' ++ ' ' :: word') :
    front = front' ∧ word = word' := by
  rcases List.append_eq_append_iff.mp h with ⟨between, rfl, hbetween⟩ | ⟨between, rfl, hbetween⟩
  · cases between with
    | nil => simpa using hbetween
    | cons c between =>
        obtain ⟨-, rfl⟩ := List.cons_eq_cons.mp hbetween
        simp at hword
  · cases between with
    | nil => simpa [eq_comm] using hbetween
    | cons c between =>
        obtain ⟨-, rfl⟩ := List.cons_eq_cons.mp hbetween
        simp at hword'

/-- The text ends in two words, the first of them a mark for the second. -/
structure EndsIn (text front mark word : String) : Prop where
  eq : text = front ++ " " ++ mark ++ " " ++ word
  mark : ' ' ∉ mark.toList
  word : ' ' ∉ word.toList

theorem EndsIn.unique {text front mark word front' mark' word' : String}
    (h : EndsIn text front mark word) (h' : EndsIn text front' mark' word') :
    front = front' ∧ mark = mark' ∧ word = word' := by
  have heq := congrArg String.toList (h.eq.symm.trans h'.eq)
  simp only [String.toList_append, List.append_assoc] at heq
  have houter : (front.toList ++ ' ' :: mark.toList) ++ ' ' :: word.toList =
      (front'.toList ++ ' ' :: mark'.toList) ++ ' ' :: word'.toList := by simpa using heq
  obtain ⟨hinner, hword⟩ := append_blank_inj h.word h'.word houter
  obtain ⟨hfront, hmark⟩ := append_blank_inj h.mark h'.mark hinner
  exact ⟨String.toList_inj.mp hfront, String.toList_inj.mp hmark, String.toList_inj.mp hword⟩

def last? (text : String) : Option Char :=
  text.toList.getLast?

theorem last?_append (front : String) {text : String} {c : Char} (h : last? text = some c) :
    last? (front ++ text) = some c := by
  rw [last?] at h ⊢
  rw [String.toList_append, List.getLast?_append, h]
  rfl

theorem notMem_of_solid {cs : List Char} (h : Solid cs) : ' ' ∉ cs :=
  fun hmem ↦ nomatch h ' ' hmem

end Text

namespace Value

open Text

theorem toList_text (v : Int64) : (text v).toList = intDigits v.toInt :=
  String.toList_ofList

theorem blank_notMem_text (v : Int64) : ' ' ∉ (text v).toList := by
  rw [toList_text]
  exact notMem_of_solid (solid_intDigits v.toInt)

theorem text_injective : Function.Injective text := by
  intro v w h
  have hdigits : intDigits v.toInt = intDigits w.toInt := by rw [← toList_text, h, toList_text]
  have hv := readInt64_intDigits v.le_toInt v.toInt_le
  have hw := readInt64_intDigits w.le_toInt w.toInt_le
  rw [hdigits, hw] at hv
  exact Int64.toInt_inj.mp (Reading.number.inj hv).symm

theorem last?_text (v : Int64) : ∃ c, last? (text v) = some c ∧ c.isDigit = true := by
  have hnumeral := isNumeral_natDigits v.toInt.natAbs
  have hlast := List.getLast?_eq_some_getLast hnumeral.1
  refine ⟨_, ?_, hnumeral.2 _ (List.getLast_mem hnumeral.1)⟩
  rw [last?, toList_text, intDigits]
  split
  · rw [← List.singleton_append, List.getLast?_append, hlast]
    rfl
  · exact hlast

/-- A value as it is told, or that there is none. -/
def shown (held : Option Int64) : String :=
  (held.map text).getD "null"

theorem blank_notMem_shown (held : Option Int64) : ' ' ∉ (shown held).toList := by
  cases held with
  | none => decide
  | some v => exact blank_notMem_text v

theorem text_ne_null (v : Int64) : text v ≠ "null" := by
  intro h
  obtain ⟨c, hlast, hdigit⟩ := last?_text v
  rw [h] at hlast
  obtain rfl := Option.some.inj hlast
  exact nomatch hdigit

theorem shown_injective : Function.Injective shown := by
  intro held held' h
  cases held with
  | none =>
      cases held' with
      | none => rfl
      | some w => exact (text_ne_null w h.symm).elim
  | some v =>
      cases held' with
      | none => exact (text_ne_null v h).elim
      | some w => rw [text_injective h]

end Value

end LessonDeck
