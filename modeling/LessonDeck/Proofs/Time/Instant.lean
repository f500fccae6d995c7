import LessonDeck.Proofs.Text.Numeral
import LessonDeck.Proofs.Time.Calendar
import LessonDeck.Time.Instant
/-!
# Instants that are read back

The text of an instant that a clock can show is read as this instant.
-/

namespace LessonDeck

open Text

namespace Instant

/-! ## Digits -/

theorem isNumeral_padded (width n : ℕ) : IsNumeral (padded width n) := by
  have hdigits := isNumeral_natDigits n
  refine ⟨fun hnil ↦ hdigits.1 (List.append_eq_nil_iff.mp hnil).2, fun d hd ↦ ?_⟩
  obtain hzero | hd := List.mem_append.mp hd
  · rw [List.eq_of_mem_replicate hzero]
    rfl
  · exact hdigits.2 d hd

theorem ofDigitChars_padded (width n : ℕ) : Nat.ofDigitChars 10 (padded width n) 0 = n := by
  rw [padded, Nat.ofDigitChars_append, Nat.ofDigitChars_replicate_zero, Nat.mul_zero]
  exact Nat.ofDigitChars_ten_toDigits

theorem length_padded (width : ℕ) {n : ℕ} (hwidth : 0 < width) (h : n < 10 ^ width) :
    (padded width n).length = width := by
  have hle : (natDigits n).length ≤ width :=
    (Nat.length_toDigits_le_iff (by decide) hwidth).mpr h
  rw [padded, List.length_append, List.length_replicate]
  omega

theorem readDigits_append (most : ℕ) {digits : List Char} (rest : List Char) (h : IsNumeral digits)
    (hmost : digits.length ≤ most)
    (hrest : digits.length = most ∨ ∀ c ∈ rest.head?, c.isDigit = false) :
    readDigits most (digits ++ rest) = some (Nat.ofDigitChars 10 digits 0, rest) := by
  have hstop : (rest.take (most - digits.length)).takeWhile Char.isDigit = [] := by
    obtain hfull | hrest := hrest
    · rw [hfull, Nat.sub_self]
      rfl
    · cases rest with
      | nil => simp
      | cons c rest =>
          have hc : ¬ c.isDigit = true := by simp [hrest c rfl]
          cases most - digits.length with
          | zero => rfl
          | succ n => exact List.takeWhile_cons_of_neg hc
  have htaken : ((digits ++ rest).take most).takeWhile Char.isDigit = digits := by
    rw [List.take_append, List.take_of_length_le hmost, List.takeWhile_append_of_pos h.2, hstop,
      List.append_nil]
  have hempty : digits.isEmpty = false := by simpa using h.1
  rw [readDigits, htaken]
  simp only [hempty, List.drop_left, Bool.false_eq_true, if_false]

theorem trimStart_of_isNumeral {digits : List Char} (h : IsNumeral digits) (rest : List Char) :
    trimStart (digits ++ rest) = digits ++ rest := by
  cases digits with
  | nil => exact (h.1 rfl).elim
  | cons d digits => exact trimStart_cons (h.solid d List.mem_cons_self) _

theorem append_ne_cons {digits rest : List Char} (h : IsNumeral digits) {c : Char} {cs : List Char}
    (hc : c.isDigit = false) : digits ++ rest ≠ c :: cs := by
  cases digits with
  | nil => exact (h.1 rfl).elim
  | cons d digits =>
      intro heq
      obtain ⟨rfl, -⟩ := List.cons.inj heq
      exact Bool.false_ne_true (hc.symm.trans (h.2 d List.mem_cons_self))

/-! ## The parts -/

theorem readPart_padded {n : ℕ} (h : n < 100) (rest : List Char) :
    readPart (padded 2 n ++ rest) = some (n, rest) := by
  have hnumeral := isNumeral_padded 2 n
  have hlength := length_padded 2 (by decide) h
  rw [readPart, trimStart_of_isNumeral hnumeral,
    readDigits_append 2 rest hnumeral hlength.le (.inl hlength), ofDigitChars_padded]

theorem readMark_cons (mark : Char) (h : isBlank mark = false) (rest : List Char) :
    readMark mark (mark :: rest) = some rest := by
  rw [readMark, trimStart_cons h]
  exact if_pos rfl

theorem readYear_yearChars (year : ℤ) (rest : List Char)
    (hrest : ∀ c ∈ rest.head?, c.isDigit = false) :
    readYear (yearChars year ++ rest) = some (year, rest) := by
  have hnumeral := isNumeral_padded 4 year.natAbs
  have hread := readDigits_append (padded 4 year.natAbs ++ rest).length rest hnumeral
    (by simp) (.inr hrest)
  rw [ofDigitChars_padded] at hread
  rw [yearChars]
  split
  · next hneg =>
    have habs : -(year.natAbs : ℤ) = year := by omega
    rw [List.cons_append, readYear, trimStart_cons (by decide)]
    simp only [hread, Option.map_some, habs]
  split
  · next hneg hlarge =>
    have habs : (year.natAbs : ℤ) = year := by omega
    rw [List.cons_append, readYear, trimStart_cons (by decide)]
    simp only [hread, Option.map_some, habs]
  · next hneg hsmall =>
    have habs : (year.natAbs : ℤ) = year := by omega
    have hlength : (padded 4 year.natAbs).length = 4 := length_padded 4 (by decide) (by omega)
    have hshort := readDigits_append 4 rest hnumeral hlength.le (.inl hlength)
    rw [ofDigitChars_padded] at hshort
    rw [readYear, trimStart_of_isNumeral hnumeral]
    split
    · next heq => exact (append_ne_cons hnumeral rfl heq).elim
    · next heq => exact (append_ne_cons hnumeral rfl heq).elim
    · simp only [hshort, Option.map_some, habs]

/-- Digits behind the point count as many places as they are. -/
theorem readFraction_padded {width n : ℕ} (hwidth : 0 < width) (hmost : width ≤ 9)
    (h : n < 10 ^ width) :
    readFraction ('.' :: (padded width n ++ ['Z'])) = some (n * 10 ^ (9 - width), ['Z']) := by
  have hnumeral := isNumeral_padded width n
  have hlength := length_padded width hwidth h
  have hread := readDigits_append 9 ['Z'] hnumeral (hlength.trans_le hmost)
    (.inr fun _ hc ↦ Option.some.inj hc ▸ rfl)
  rw [ofDigitChars_padded] at hread
  rw [readFraction, hread]
  simp [hlength]

theorem readFraction_fractionChars {nanos : ℕ} (h : nanos < 1000000000) :
    readFraction (fractionChars nanos ++ ['Z']) = some (nanos, ['Z']) := by
  rw [fractionChars]
  split
  · next hzero =>
    rw [hzero]
    rfl
  split
  · next hmillis =>
    have hwhole : nanos / 1000000 * 10 ^ (9 - 3) = nanos := by omega
    rw [List.cons_append, readFraction_padded (by decide) (by decide) (by omega), hwhole]
  split
  · next hmicros =>
    have hwhole : nanos / 1000 * 10 ^ (9 - 6) = nanos := by omega
    rw [List.cons_append, readFraction_padded (by decide) (by decide) (by omega), hwhole]
  · have hwhole : nanos * 10 ^ (9 - 9) = nanos := Nat.mul_one nanos
    rw [List.cons_append, readFraction_padded (by decide) (by decide) h, hwhole]

/-! ## Whole instants -/

/-- A date and a time of day in universal time are read as the instant that they denote. -/
theorem read?_parts {year : ℤ} {month day hour minute second nanos : ℕ}
    (hyear : isYear year = true) (hdate : Calendar.isDate year month day = true)
    (hhour : hour ≤ 23) (hminute : minute ≤ 59) (hsecond : second ≤ 60)
    (hnanos : nanos < 1000000000) :
    read? (yearChars year ++ '-' :: (padded 2 month ++ '-' :: (padded 2 day ++
      'T' :: (padded 2 hour ++ ':' :: (padded 2 minute ++ ':' :: (padded 2 second ++
        (fractionChars nanos ++ ['Z']))))))) =
      some ⟨Calendar.dayNumber year month day * 86400 +
          (hour * 3600 + minute * 60 + (if second = 60 then 59 else second) : ℕ),
        if second = 60 then nanos + 1000000000 else nanos⟩ := by
  have hcalendar := hdate
  simp only [Calendar.isDate, Bool.and_eq_true, decide_eq_true_eq] at hcalendar
  have hlength : Calendar.daysInMonth year month ≤ 31 := by
    rw [Calendar.daysInMonth]
    split <;> split <;> decide
  have hfraction := readFraction_fractionChars hnanos
  have hyearRead := fun rest : List Char ↦ readYear_yearChars year ('-' :: rest)
    fun _ hc ↦ Option.some.inj hc ▸ rfl
  have hmonthRead := readPart_padded (show month < 100 by omega)
  have hdayRead := readPart_padded (show day < 100 by omega)
  have hhourRead := readPart_padded (show hour < 100 by omega)
  have hminuteRead := readPart_padded (show minute < 100 by omega)
  have hsecondRead := readPart_padded (show second < 100 by omega)
  have hdash := readMark_cons '-' rfl
  have hcolon := readMark_cons ':' rfl
  have hzone : readZone ['Z'] = some (0, []) := rfl
  rw [read?, hyearRead]
  dsimp only [Option.bind_eq_bind, Option.bind_some]
  rw [hdash]
  dsimp only [Option.bind_some]
  rw [hmonthRead]
  dsimp only [Option.bind_some]
  rw [hdash]
  dsimp only [Option.bind_some]
  rw [hdayRead]
  dsimp only [Option.bind_some]
  split
  · next heq =>
    obtain ⟨-, rfl⟩ := List.cons.inj heq
    simp only [hhourRead, hcolon, hminuteRead, hsecondRead, hfraction, hzone, Option.bind_some]
    have hvalid : (isYear year && Calendar.isDate year month day && decide (hour ≤ 23) &&
        decide (minute ≤ 59) && decide (second ≤ 60) && decide (Int.natAbs 0 < 86400) &&
          (trimStart []).isEmpty) = true := by
      rw [hyear, hdate, decide_eq_true hhour, decide_eq_true hminute, decide_eq_true hsecond]
      rfl
    rw [if_pos hvalid, sub_zero]
    simp only [beq_iff_eq]
    rfl
  · next heq => exact absurd (List.cons.inj heq).1 (by decide)
  · next heq => exact absurd (List.cons.inj heq).1 (by decide)
  · next hother _ _ => exact (hother _ rfl).elim

/-- What a clock can show: a year of the calendar that is kept, and nanoseconds within a second or
within the leap second at the end of a minute. -/
structure OnClock (t : Instant) : Prop where
  year : isYear (Calendar.dateOf (t.seconds.fdiv 86400)).1 = true
  nanos : t.nanos < 1000000000 ∨ t.nanos < 2000000000 ∧ t.seconds % 60 = 59

/-- The text of an instant is read as this instant. -/
theorem ofText?_text {t : Instant} (h : t.OnClock) : ofText? t.text = some t := by
  obtain ⟨seconds, nanos⟩ := t
  obtain ⟨hyear, hnanos⟩ := h
  obtain ⟨hdate, hnumber⟩ := Calendar.dayNumber_dateOf (seconds.fdiv 86400)
  have hfdiv : seconds.fdiv 86400 = seconds / 86400 := Int.fdiv_eq_ediv_of_nonneg _ (by decide)
  have hfmod : seconds.fmod 86400 = seconds % 86400 := Int.fmod_eq_emod_of_nonneg _ (by decide)
  rw [ofText?, text, String.toList_ofList]
  dsimp only at *
  rw [hfmod]
  generalize Calendar.dateOf (seconds.fdiv 86400) = date at *
  obtain ⟨year, month, day⟩ := date
  generalize hofDay : (seconds % 86400).toNat = ofDay
  simp only [List.append_assoc, List.cons_append]
  have hhour : ofDay / 3600 ≤ 23 := by omega
  have hminute : ofDay / 60 % 60 ≤ 59 := by omega
  by_cases hleap : 1000000000 ≤ nanos
  · have hread := fun (h₁ : ofDay % 60 + 1 ≤ 60) (h₂ : nanos - 1000000000 < 1000000000) ↦
      read?_parts hyear hdate hhour hminute h₁ h₂
    simp only [if_pos hleap]
    have hseconds : seconds / 86400 * 86400 +
        (ofDay / 3600 * 3600 + ofDay / 60 % 60 * 60 + 59 : ℕ) = seconds := by omega
    rw [hread (by omega) (by omega), if_pos (by omega), if_pos (by omega), hnumber, hfdiv, hseconds,
      Nat.sub_add_cancel hleap]
  · have hread := fun (h₁ : ofDay % 60 ≤ 60) (h₂ : nanos < 1000000000) ↦
      read?_parts hyear hdate hhour hminute h₁ h₂
    simp only [if_neg hleap]
    have hseconds : seconds / 86400 * 86400 +
        (ofDay / 3600 * 3600 + ofDay / 60 % 60 * 60 + ofDay % 60 : ℕ) = seconds := by omega
    rw [Nat.add_zero, hread (by omega) (by omega), if_neg (by omega), if_neg (by omega), hnumber,
      hfdiv, hseconds]

end Instant

end LessonDeck
