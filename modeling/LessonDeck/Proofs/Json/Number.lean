import LessonDeck.Json.Number
import LessonDeck.Proofs.Text.Numeral
/-!
# Numbers that are written out

A literal has one spelling with a small `e` and without a plus sign, from which the reader gets the
literal back, whatever follows that does not go on with the number.  Integers and doubles are written
in this spelling; doubles show a point or an exponent.
-/

namespace LessonDeck

open Text

namespace Json

/-! ## The spelling of a literal -/

/-- What follows does not go on with a number. -/
def EndsNumber (rest : List Char) : Prop :=
  ∀ c ∈ rest.head?, c.isDigit = false ∧ c ≠ '.' ∧ c ≠ 'e' ∧ c ≠ 'E'

namespace Literal

def fractionChars : Option (List Char) → List Char
  | none => []
  | some digits => '.' :: digits

def exponentChars : Option (Bool × List Char) → List Char
  | none => []
  | some (down, digits) => 'e' :: Decimal.signed down digits

def chars (l : Literal) : List Char :=
  Decimal.signed l.negative (l.whole ++ fractionChars l.fraction ++ exponentChars l.exponent)

/-- Digits wherever there must be some, and no zero in front of another digit. -/
structure Proper (l : Literal) : Prop where
  whole : IsNumeral l.whole
  lead : l.whole.head? = some '0' → l.whole = ['0']
  fraction : ∀ digits ∈ l.fraction, IsNumeral digits
  exponent : ∀ e ∈ l.exponent, IsNumeral e.2

end Literal

theorem spanDigits_append {digits rest : List Char} (h : ∀ d ∈ digits, d.isDigit = true)
    (hrest : ∀ c ∈ rest.head?, c.isDigit = false) : spanDigits (digits ++ rest) = (digits, rest) := by
  have hstop : rest.takeWhile Char.isDigit = [] ∧ rest.dropWhile Char.isDigit = rest := by
    cases rest with
    | nil => exact ⟨rfl, rfl⟩
    | cons c rest =>
        have hc : ¬ c.isDigit = true := by simp [hrest c rfl]
        exact ⟨List.takeWhile_cons_of_neg hc, List.dropWhile_cons_of_neg hc⟩
  rw [spanDigits, List.span_eq_takeWhile_dropWhile, List.takeWhile_append_of_pos h,
    List.dropWhile_append_of_pos h, hstop.1, hstop.2, List.append_nil]

theorem readWhole_append {digits rest : List Char} (h : IsNumeral digits)
    (hlead : digits.head? = some '0' → digits = ['0'])
    (hrest : ∀ c ∈ rest.head?, c.isDigit = false) :
    readWhole (digits ++ rest) = some (digits, rest) := by
  rw [readWhole, spanDigits_append h.2 hrest]
  split
  · next heq => exact (h.1 (Prod.mk.inj heq).1).elim
  · next heq =>
    obtain ⟨rfl, -⟩ := Prod.mk.inj heq
    exact nomatch hlead rfl
  · next heq =>
    obtain ⟨rfl, rfl⟩ := Prod.mk.inj heq
    rfl

theorem readFraction_append {fraction : Option (List Char)} {rest : List Char}
    (h : ∀ digits ∈ fraction, IsNumeral digits)
    (hrest : ∀ c ∈ rest.head?, c.isDigit = false ∧ c ≠ '.') :
    readFraction (Literal.fractionChars fraction ++ rest) = some (fraction, rest) := by
  cases fraction with
  | none =>
      cases rest with
      | nil => rfl
      | cons c rest =>
          have hc : c ≠ '.' := (hrest c rfl).2
          rw [Literal.fractionChars, List.nil_append, readFraction]
          simpa using hc
  | some digits =>
      have hdigits := h digits rfl
      change readFraction ('.' :: (digits ++ rest)) = _
      rw [readFraction, spanDigits_append hdigits.2 fun c hc ↦ (hrest c hc).1]
      cases digits with
      | nil => exact (hdigits.1 rfl).elim
      | cons d digits => rfl

theorem readExponentDigits_append {down : Bool} {digits rest : List Char} (h : IsNumeral digits)
    (hrest : ∀ c ∈ rest.head?, c.isDigit = false) :
    readExponentDigits (Decimal.signed down digits ++ rest) = some (some (down, digits), rest) := by
  have hspan := spanDigits_append h.2 hrest
  cases digits with
  | nil => exact (h.1 rfl).elim
  | cons d digits =>
      cases down with
      | true =>
          change readExponentDigits ('-' :: (d :: digits ++ rest)) = _
          rw [readExponentDigits]
          simp only [hspan]
      | false =>
          have hd := h.2 d List.mem_cons_self
          change readExponentDigits (d :: digits ++ rest) = _
          rw [readExponentDigits]
          · simp only [hspan]
          · rintro r heq
            obtain ⟨rfl, -⟩ := List.cons.inj heq
            exact nomatch hd
          · rintro r heq
            obtain ⟨rfl, -⟩ := List.cons.inj heq
            exact nomatch hd

theorem readExponent_append {exponent : Option (Bool × List Char)} {rest : List Char}
    (h : ∀ e ∈ exponent, IsNumeral e.2) (hrest : EndsNumber rest) :
    readExponent (Literal.exponentChars exponent ++ rest) = some (exponent, rest) := by
  cases exponent with
  | none =>
      cases rest with
      | nil => rfl
      | cons c rest =>
          obtain ⟨-, -, hsmall, hlarge⟩ := hrest c rfl
          rw [Literal.exponentChars, List.nil_append, readExponent]
          · simpa using hsmall
          · simpa using hlarge
  | some e => exact readExponentDigits_append (h e rfl) fun c hc ↦ (hrest c hc).1

/-- The reader finds the literal in its spelling, and nothing more. -/
theorem readNumber_chars {l : Literal} (h : l.Proper) {rest : List Char} (hrest : EndsNumber rest) :
    readNumber (l.chars ++ rest) = some (l.value, rest) := by
  obtain ⟨negative, whole, fraction, exponent⟩ := l
  obtain ⟨hwhole, hlead, hfraction, hexponent⟩ := h
  have hexp := readExponent_append hexponent hrest
  have hfrac : readFraction (Literal.fractionChars fraction ++
      (Literal.exponentChars exponent ++ rest)) =
        some (fraction, Literal.exponentChars exponent ++ rest) := by
    refine readFraction_append hfraction ?_
    cases exponent with
    | none => exact fun c hc ↦ ⟨(hrest c hc).1, (hrest c hc).2.1⟩
    | some e => exact fun c hc ↦ Option.some.inj hc ▸ by decide
  have hint : readWhole (whole ++ (Literal.fractionChars fraction ++
      (Literal.exponentChars exponent ++ rest))) = some (whole, Literal.fractionChars fraction ++
        (Literal.exponentChars exponent ++ rest)) := by
    refine readWhole_append hwhole hlead ?_
    cases fraction with
    | some digits => exact fun c hc ↦ Option.some.inj hc ▸ by decide
    | none =>
        cases exponent with
        | none => exact fun c hc ↦ (hrest c hc).1
        | some e => exact fun c hc ↦ Option.some.inj hc ▸ by decide
  rw [Literal.chars]
  cases negative with
  | true =>
      change readNumber ('-' :: (whole ++ Literal.fractionChars fraction ++
        Literal.exponentChars exponent ++ rest)) = _
      rw [List.append_assoc, List.append_assoc, readNumber]
      simp only [hint, hfrac, hexp, Option.bind_eq_bind, Option.bind_some]
      rfl
  | false =>
      cases whole with
      | nil => exact (hwhole.1 rfl).elim
      | cons d digits =>
          have hd := hwhole.2 d List.mem_cons_self
          change readNumber (d :: digits ++ Literal.fractionChars fraction ++
            Literal.exponentChars exponent ++ rest) = _
          rw [List.append_assoc, List.append_assoc, readNumber]
          · simp only [hint, hfrac, hexp, Option.bind_eq_bind, Option.bind_some]
            rfl
          · rintro r heq
            obtain ⟨rfl, -⟩ := List.cons.inj heq
            exact nomatch hd

/-! ## Integers -/

def Literal.ofInt (n : ℤ) : Literal :=
  ⟨n < 0, natDigits n.natAbs, none, none⟩

theorem Literal.chars_ofInt (n : ℤ) : (ofInt n).chars = intDigits n := by
  rw [chars, ofInt, intDigits, Decimal.signed]
  simp [fractionChars, exponentChars]

theorem Literal.proper_ofInt (n : ℤ) : (ofInt n).Proper where
  whole := isNumeral_natDigits _
  lead := by
    intro hzero
    obtain hn | hn := Nat.eq_zero_or_pos n.natAbs
    · change natDigits n.natAbs = ['0']
      rw [hn]
      rfl
    · exact (head?_natDigits hn hzero).elim
  fraction := nofun
  exponent := nofun

/-- Integers that fit a word, with or without a sign, stay integers. -/
theorem Literal.value_ofInt {n : ℤ} (hmin : -0x8000000000000000 ≤ n)
    (hmax : n ≤ 0xFFFFFFFFFFFFFFFF) : (ofInt n).value = .int n := by
  have hdigits : Nat.ofDigitChars 10 (natDigits n.natAbs) 0 = n.natAbs :=
    Nat.ofDigitChars_ten_toDigits
  rw [value, ofInt, hdigits]
  obtain hneg | hpos := lt_or_ge n 0
  · have hzero : n ≠ 0 := by omega
    have hword : n.natAbs ≤ 0x8000000000000000 := by omega
    simp [hneg, hword, hzero, abs_of_neg hneg]
  · have hword : n.natAbs ≤ maxWord := by
      rw [maxWord]
      omega
    simp [hpos, hword]

end Json

end LessonDeck
