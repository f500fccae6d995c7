import LessonDeck.Proofs.Command.Reading
import LessonDeck.Proofs.Text.Numeral
import LessonDeck.Proofs.Value
/-!
# Number cards

A number card says the integer that is printed on it, of whatever length, clamped to the range of
values.  Of the other texts those are refused that do not begin with an integer beyond the words.
Behind such an integer nothing is looked at, so the card says the end of the range on its side, and
whatever else is printed there goes unnoticed.
-/

namespace LessonDeck

open Text

namespace Text

/-- A text that is no integer but begins with one that is no word. -/
def Overruns (text : List Char) : Prop :=
  (∀ n : SignedNumeral, n.chars ≠ text) ∧
    ∃ (n : SignedNumeral) (rest : List Char), ¬ n.IsWord ∧ n.chars ++ rest = text

namespace SignedNumeral

variable {n : SignedNumeral}

/-- An integer that is no word lies beyond the words on the side of its sign. -/
theorem outside_of_not_isWord (h : ¬ n.IsWord) :
    n.sign.outside = .tooLarge ∧ Int64.maxValue.toInt < n.value ∨
      n.sign.outside = .tooSmall ∧ n.value < Int64.minValue.toInt := by
  rw [isWord_iff, not_le] at h
  rw [value]
  cases hsign : n.sign with
  | absent =>
      rw [hsign] at h
      exact .inl ⟨rfl, Int.ofNat_lt.mpr h⟩
  | plus =>
      rw [hsign] at h
      exact .inl ⟨rfl, Int.ofNat_lt.mpr h⟩
  | minus =>
      rw [hsign] at h
      exact .inr ⟨rfl, Int.neg_lt_neg (Int.ofNat_lt.mpr h)⟩

end SignedNumeral

end Text

namespace Value

theorem clamp_maxValue {z : ℤ} (h : Int64.maxValue.toInt < z) :
    clamp Int64.maxValue = nearest z := by
  have hend : greatest.toInt ≤ Int64.maxValue.toInt := by decide
  rw [clamp_eq_nearest, nearest, nearest, bounded_of_greatest_le hend,
    bounded_of_greatest_le (hend.trans h.le)]

theorem clamp_minValue {z : ℤ} (h : z < Int64.minValue.toInt) :
    clamp Int64.minValue = nearest z := by
  have hend : Int64.minValue.toInt ≤ least.toInt := by decide
  rw [clamp_eq_nearest, nearest, nearest, bounded_of_le_least hend,
    bounded_of_le_least (h.le.trans hend)]

end Value

namespace Meaning

variable {n : SignedNumeral} {text : List Char}

theorem ofNumber_append (h : ¬ n.IsWord) (rest : List Char) :
    ofNumber (n.chars ++ rest) = .ok (.number (Value.nearest n.value)) := by
  have hread := SignedNumeral.readInt64_append_of_not_isWord h rest
  rw [ofNumber]
  rcases SignedNumeral.outside_of_not_isWord h with ⟨hsign, hlarge⟩ | ⟨hsign, hsmall⟩
  · rw [hread, hsign, ← Value.clamp_maxValue hlarge]
  · rw [hread, hsign, ← Value.clamp_minValue hsmall]

theorem ofNumber_chars (n : SignedNumeral) :
    ofNumber n.chars = .ok (.number (Value.nearest n.value)) := by
  by_cases h : n.IsWord
  · obtain ⟨hmin, hmax⟩ := h
    have hword : (Int64.ofInt n.value).toInt = n.value :=
      Int64.toInt_ofInt_of_le hmin (Int.lt_add_one_of_le hmax)
    rw [ofNumber, SignedNumeral.readInt64_of_isWord ⟨hmin, hmax⟩]
    dsimp only
    rw [Value.clamp_eq_nearest, hword]
  · have hread := ofNumber_append h []
    rwa [List.append_nil] at hread

/-- Only a text that begins with an integer beyond the words is read although it is none. -/
theorem ofNumber_of_not_overruns (hne : ∀ n : SignedNumeral, n.chars ≠ text)
    (h : ¬ Overruns text) : ofNumber text = .error (.notANumber (String.ofList text)) := by
  by_cases hread : readInt64 text = .malformed
  · rw [ofNumber, hread]
  · obtain ⟨n, rest, rfl, rfl | hword⟩ := SignedNumeral.exists_of_readInt64 hread
    · exact (hne n (List.append_nil _).symm).elim
    · exact (h ⟨hne, n, rest, hword, rfl⟩).elim

end Meaning

namespace Card

variable {card : Card}

/-- The card is read as its text has it: an integer as the nearest value, and nothing else. -/
structure SaysItsNumber (card : Card) (place : ℕ) : Prop where
  numeral : ∀ n : SignedNumeral, n.chars = trim card.value.toList →
    Token.read card place = .ok ⟨.number (Value.nearest n.value), place, card.text⟩
  refused : (∀ n : SignedNumeral, n.chars ≠ trim card.value.toList) →
    Token.read card place = .error (.malformedCard place (.notANumber card.text))

theorem read_of_number (h : card.kind = .number) (place : ℕ) :
    Token.read card place = ((Meaning.ofNumber (trim card.value.toList)).mapError
      (.malformedCard place)).map fun m ↦ ⟨m, place, card.text⟩ := by
  rw [Token.read, h]
  rfl

/-- A number card is read as its text has it unless the text overruns.  A text that does says the
value nearest to the integer at its front, as if nothing stood behind it. -/
theorem number_card_reads (h : card.kind = .number) (place : ℕ) :
    (card.SaysItsNumber place ↔ ¬ Overruns (trim card.value.toList)) ∧
      ∀ (n : SignedNumeral) (rest : List Char), ¬ n.IsWord →
        n.chars ++ rest = trim card.value.toList →
          Token.read card place = .ok ⟨.number (Value.nearest n.value), place, card.text⟩ := by
  have hread := read_of_number h place
  have hfront (n : SignedNumeral) (rest : List Char) (hword : ¬ n.IsWord)
      (htext : n.chars ++ rest = trim card.value.toList) :
      Token.read card place = .ok ⟨.number (Value.nearest n.value), place, card.text⟩ := by
    rw [hread, ← htext, Meaning.ofNumber_append hword]
    rfl
  refine ⟨⟨?_, fun hoverruns ↦ ⟨?_, ?_⟩⟩, hfront⟩
  · rintro ⟨-, hrefused⟩ ⟨hne, n, rest, hword, htext⟩
    have hnumber := hfront n rest hword htext
    rw [hrefused hne] at hnumber
    exact nomatch hnumber
  · intro n htext
    rw [hread, ← htext, Meaning.ofNumber_chars]
    rfl
  · intro hne
    rw [hread, Meaning.ofNumber_of_not_overruns hne hoverruns]
    rfl

theorem number_card_reads_longInteger :
    Token.read (.deal .number " -99999999999999999999") 0 =
      .ok ⟨.number (-1000000000), 0, "-99999999999999999999"⟩ := by
  have hword : ¬ (SignedNumeral.ofInt (-99999999999999999999)).IsWord := by
    rw [SignedNumeral.IsWord, SignedNumeral.value_ofInt]
    decide
  exact (number_card_reads rfl 0).2 _ [] hword rfl

/-- A text that is no integer, on a card that says a number. -/
theorem number_card_overruns :
    (∀ n : SignedNumeral, n.chars ≠ "92233720368547758070x".toList) ∧
      Token.read (.deal .number "92233720368547758070x") 0 =
        .ok ⟨.number 1000000000, 0, "92233720368547758070x"⟩ := by
  refine ⟨fun n htext ↦ ?_, by rfl⟩
  have hmem : 'x' ∈ n.chars := by
    rw [htext]
    decide
  rcases n.of_mem_chars hmem with hdigit | hsign | hsign
  · exact nomatch hdigit
  · exact nomatch hsign
  · exact nomatch hsign

end Card

end LessonDeck
