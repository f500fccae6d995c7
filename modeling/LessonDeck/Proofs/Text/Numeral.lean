import LessonDeck.Proofs.Text.Blank
import LessonDeck.Text.Numeral
/-!
# Reading decimal integers

Digits read from the left give the number that they denote, or the news that it lies beyond the
range.  As more digits only lead further away from zero, it does not matter to an integer that the
reading ends where the range is left.  It does matter to a text that goes on with something else:
that is malformed only if the digits before it stay within the range.  Integers that are written in
decimal are read back.
-/

namespace LessonDeck.Text

/-- A nonempty run of digits. -/
def IsNumeral (ds : List Char) : Prop :=
  ds ≠ [] ∧ ∀ d ∈ ds, d.isDigit = true

theorem isNumeral_natDigits (n : ℕ) : IsNumeral (natDigits n) :=
  ⟨Nat.toDigits_ne_nil, fun _ hd ↦ Nat.isDigit_of_mem_toDigits (by decide) (by decide) hd⟩

theorem not_blank_of_isDigit {c : Char} (h : c.isDigit = true) : isBlank c = false := by
  by_contra hblank
  have hmem := toNat_mem_blankCodes (by simpa using hblank)
  have hrange := Char.isDigit_iff_toNat.mp h
  have hcodes : ∀ n ∈ blankCodes, ¬ ('0'.toNat ≤ n ∧ n ≤ '9'.toNat) := by decide
  exact hcodes _ hmem hrange

theorem IsNumeral.solid {ds : List Char} (h : IsNumeral ds) : Solid ds :=
  fun _ hd ↦ not_blank_of_isDigit (h.2 _ hd)

theorem readNat?_eq_some {ds : List Char} (h : IsNumeral ds) :
    readNat? ds = some (Nat.ofDigitChars 10 ds 0) := by
  have hempty : ds.isEmpty = false := by simpa using h.1
  have hall : ds.all Char.isDigit = true := List.all_eq_true.mpr h.2
  rw [readNat?, hempty, hall]
  rfl

theorem readNat?_natDigits (n : ℕ) : readNat? (natDigits n) = some n := by
  rw [readNat?_eq_some (isNumeral_natDigits n), natDigits, Nat.ofDigitChars_ten_toDigits]

/-- No zero stands in front of another digit. -/
theorem head?_natDigits {n : ℕ} (h : 0 < n) : (natDigits n).head? ≠ some '0' := by
  induction n using Nat.strong_induction_on with
  | _ n ih =>
      rw [natDigits]
      obtain hsmall | hlarge := Nat.lt_or_ge n 10
      · rw [Nat.toDigits_of_lt_base hsmall]
        interval_cases n <;> decide
      · rw [Nat.toDigits_of_base_le (by decide) hlarge, List.head?_append_of_ne_nil _
          Nat.toDigits_ne_nil]
        exact ih (n / 10) (by omega) (by omega)

/-! ## Digits up to a limit -/

/-- What comes of digits that are read onto a number. -/
inductive Scan where
  | whole (n : ℕ)
  /-- The limit has been left.  What follows has not been looked at. -/
  | beyond
  /-- There is something else than a digit, within the limit. -/
  | broken

/-- Digits read from the left onto a number that is not to leave a limit. -/
def scan (limit acc : ℕ) : List Char → Scan
  | [] => .whole acc
  | c :: cs =>
    match digit? c with
    | none => .broken
    | some d => if 10 * acc + d ≤ limit then scan limit (10 * acc + d) cs else .beyond

theorem le_ofDigitChars (ds : List Char) (acc : ℕ) : acc ≤ Nat.ofDigitChars 10 ds acc := by
  induction ds generalizing acc with
  | nil => exact le_rfl
  | cons d ds ih =>
      rw [Nat.ofDigitChars_cons]
      have hle := ih (10 * acc + (d.toNat - '0'.toNat))
      omega

theorem scan_append {limit : ℕ} {ds : List Char} (h : ∀ d ∈ ds, d.isDigit = true) {acc : ℕ}
    (hacc : acc ≤ limit) (rest : List Char) :
    scan limit acc (ds ++ rest) = if Nat.ofDigitChars 10 ds acc ≤ limit
      then scan limit (Nat.ofDigitChars 10 ds acc) rest else .beyond := by
  induction ds generalizing acc with
  | nil => rw [Nat.ofDigitChars_nil, if_pos hacc, List.nil_append]
  | cons d ds ih =>
      obtain ⟨hd, hds⟩ := List.forall_mem_cons.mp h
      rw [List.cons_append, scan, digit?, if_pos hd, Nat.ofDigitChars_cons]
      dsimp only
      split
      · next hle => exact ih hds hle
      · next hlt =>
        have hgrow := le_ofDigitChars ds (10 * acc + (d.toNat - '0'.toNat))
        rw [if_neg]
        omega

/-- A scan that is not broken has digits before it, either all there is or enough to leave the
limit. -/
theorem exists_digits_of_scan {limit acc : ℕ} {cs : List Char} (h : scan limit acc cs ≠ .broken) :
    ∃ ds rest, cs = ds ++ rest ∧ (∀ d ∈ ds, d.isDigit = true) ∧
      (rest = [] ∨ limit < Nat.ofDigitChars 10 ds acc) := by
  induction cs generalizing acc with
  | nil => exact ⟨[], [], rfl, nofun, .inl rfl⟩
  | cons c cs ih =>
      by_cases hc : c.isDigit = true
      · rw [scan, digit?, if_pos hc] at h
        dsimp only at h
        split at h
        · obtain ⟨ds, rest, rfl, hds, hend⟩ := ih h
          exact ⟨c :: ds, rest, rfl, List.forall_mem_cons.mpr ⟨hc, hds⟩, hend⟩
        · next hbeyond => exact ⟨[c], cs, rfl, by simpa using hc, .inr (not_le.mp hbeyond)⟩
      · rw [scan, digit?, if_neg hc] at h
        exact (h rfl).elim

/-! ## Signs -/

/-- What may stand before the digits of an integer. -/
inductive NumeralSign where
  | absent
  | plus
  | minus
  deriving Repr, DecidableEq

namespace NumeralSign

def chars : NumeralSign → List Char
  | absent => []
  | plus => ['+']
  | minus => ['-']

theorem of_mem_chars {s : NumeralSign} {c : Char} (h : c ∈ s.chars) : c = '+' ∨ c = '-' := by
  cases s with
  | absent => exact nomatch h
  | plus => exact .inl (List.mem_singleton.mp h)
  | minus => exact .inr (List.mem_singleton.mp h)

/-- The integer that digits denote behind the sign. -/
def apply : NumeralSign → ℕ → ℤ
  | minus, n => -n
  | _, n => n

/-- How far from zero the words reach to the side of the sign. -/
def limit : NumeralSign → ℕ
  | minus => Int64.minValue.toInt.natAbs
  | _ => Int64.maxValue.toInt.natAbs

/-- What is said of an integer that is no word. -/
def outside : NumeralSign → Reading
  | minus => .tooSmall
  | _ => .tooLarge

/-- What digits say behind the sign, by what came of them. -/
def reading (s : NumeralSign) : Scan → Reading
  | .whole n => .number (s.apply n)
  | .beyond => s.outside
  | .broken => .malformed

theorem readUp_eq_reading (acc : ℕ) (cs : List Char) :
    readUp acc cs = absent.reading (scan absent.limit acc cs) := by
  have hlimit : (absent.limit : ℤ) = Int64.maxValue.toInt := by decide
  induction cs generalizing acc with
  | nil => rfl
  | cons c cs ih =>
      rw [readUp, scan]
      cases digit? c with
      | none => rfl
      | some d =>
          have hnext : (acc : ℤ) * 10 + d = (10 * acc + d : ℕ) := by omega
          dsimp only
          rw [hnext, ← hlimit, ih]
          simp only [Nat.cast_le]
          split <;> rfl

theorem readDown_eq_reading (acc : ℕ) (cs : List Char) :
    readDown (-acc) cs = minus.reading (scan minus.limit acc cs) := by
  have hlimit : -(minus.limit : ℤ) = Int64.minValue.toInt := by decide
  induction cs generalizing acc with
  | nil => rfl
  | cons c cs ih =>
      rw [readDown, scan]
      cases digit? c with
      | none => rfl
      | some d =>
          have hnext : -(acc : ℤ) * 10 - d = -(10 * acc + d : ℕ) := by omega
          dsimp only
          rw [hnext, ← hlimit, ih]
          simp only [neg_le_neg_iff, Nat.cast_le]
          split <;> rfl

theorem readInt64_chars_append (s : NumeralSign) {d : Char} (hd : d.isDigit = true)
    (cs : List Char) :
    readInt64 (s.chars ++ d :: cs) = s.reading (scan s.limit 0 (d :: cs)) := by
  cases s with
  | absent =>
      have hplus : d ≠ '+' := by
        rintro rfl
        exact nomatch hd
      have hminus : d ≠ '-' := by
        rintro rfl
        exact nomatch hd
      have hread : readInt64 (d :: cs) = readUp 0 (d :: cs) := by
        rw [readInt64]
        all_goals simp [hplus, hminus]
      exact hread.trans (readUp_eq_reading 0 (d :: cs))
  | plus => exact readUp_eq_reading 0 (d :: cs)
  | minus => exact readDown_eq_reading 0 (d :: cs)

theorem exists_chars_append_of_readInt64 {cs : List Char} (h : readInt64 cs ≠ .malformed) :
    ∃ s body, cs = chars s ++ body ∧ body ≠ [] ∧ scan s.limit 0 body ≠ .broken := by
  have hbroken (s : NumeralSign) {body : List Char}
      (hread : s.reading (scan s.limit 0 body) ≠ .malformed) : scan s.limit 0 body ≠ .broken := by
    intro hscan
    rw [hscan] at hread
    cases s <;> exact hread rfl
  rw [readInt64.eq_def] at h
  split at h
  · exact (h rfl).elim
  · exact (h rfl).elim
  · exact (h rfl).elim
  · next body hne =>
    refine ⟨.plus, body, rfl, fun hnil ↦ hne hnil, hbroken .plus ?_⟩
    exact (readUp_eq_reading 0 body).symm.trans_ne h
  · next body hne =>
    refine ⟨.minus, body, rfl, fun hnil ↦ hne hnil, hbroken .minus ?_⟩
    exact (readDown_eq_reading 0 body).symm.trans_ne h
  · next hne _ _ _ _ =>
    refine ⟨.absent, cs, rfl, fun hnil ↦ hne hnil, hbroken .absent ?_⟩
    exact (readUp_eq_reading 0 cs).symm.trans_ne h

end NumeralSign

/-! ## Signed numerals -/

/-- An integer as it may be written: digits, at least one, with at most one sign before them. -/
structure SignedNumeral where
  sign : NumeralSign
  digits : List Char
  isNumeral : IsNumeral digits

namespace SignedNumeral

def chars (n : SignedNumeral) : List Char :=
  n.sign.chars ++ n.digits

/-- The integer that is denoted. -/
def value (n : SignedNumeral) : ℤ :=
  n.sign.apply (Nat.ofDigitChars 10 n.digits 0)

/-- Whether the integer is a signed word. -/
def IsWord (n : SignedNumeral) : Prop :=
  Int64.minValue.toInt ≤ n.value ∧ n.value ≤ Int64.maxValue.toInt

variable {n : SignedNumeral}

instance (n : SignedNumeral) : Decidable n.IsWord :=
  inferInstanceAs (Decidable (_ ∧ _))

theorem of_mem_chars {c : Char} (h : c ∈ n.chars) : c.isDigit = true ∨ c = '+' ∨ c = '-' := by
  rcases List.mem_append.mp h with hsign | hdigit
  · exact .inr (NumeralSign.of_mem_chars hsign)
  · exact .inl (n.isNumeral.2 c hdigit)

theorem isWord_iff : n.IsWord ↔ Nat.ofDigitChars 10 n.digits 0 ≤ n.sign.limit := by
  have hmin : Int64.minValue.toInt = -9223372036854775808 := by decide
  have hmax : Int64.maxValue.toInt = 9223372036854775807 := by decide
  rw [IsWord, value]
  cases n.sign <;> simp only [NumeralSign.apply, NumeralSign.limit, hmin, hmax] <;> omega

/-- What stands behind an integer that is no word is never looked at. -/
theorem readInt64_append (n : SignedNumeral) (rest : List Char) :
    readInt64 (n.chars ++ rest) = n.sign.reading
      (if n.IsWord then scan n.sign.limit (Nat.ofDigitChars 10 n.digits 0) rest else .beyond) := by
  obtain ⟨d, ds, hdigits⟩ := List.exists_cons_of_ne_nil n.isNumeral.1
  have hd : d.isDigit = true := n.isNumeral.2 d (by simp [hdigits])
  have hread := n.sign.readInt64_chars_append hd (ds ++ rest)
  rw [← List.cons_append, ← hdigits, scan_append n.isNumeral.2 n.sign.limit.zero_le] at hread
  simp only [chars, List.append_assoc, isWord_iff]
  exact hread

theorem readInt64_of_isWord (h : n.IsWord) : readInt64 n.chars = .number n.value := by
  have hread := n.readInt64_append []
  rw [List.append_nil, if_pos h] at hread
  exact hread

theorem readInt64_append_of_not_isWord (h : ¬ n.IsWord) (rest : List Char) :
    readInt64 (n.chars ++ rest) = n.sign.outside := by
  rw [readInt64_append, if_neg h]
  rfl

/-- Whatever is not malformed is an integer as it may be written, or begins with one that is no
word. -/
theorem exists_of_readInt64 {cs : List Char} (h : readInt64 cs ≠ .malformed) :
    ∃ (n : SignedNumeral) (rest : List Char), cs = n.chars ++ rest ∧ (rest = [] ∨ ¬ n.IsWord) := by
  obtain ⟨s, body, rfl, hne, hscan⟩ := NumeralSign.exists_chars_append_of_readInt64 h
  obtain ⟨ds, rest, rfl, hds, hend⟩ := exists_digits_of_scan hscan
  have hds' : ds ≠ [] := by
    rintro rfl
    rcases hend with rfl | hbeyond
    · exact hne rfl
    · exact (Nat.not_lt_zero _ hbeyond).elim
  refine ⟨⟨s, ds, hds', hds⟩, rest, (List.append_assoc ..).symm, ?_⟩
  rw [isWord_iff, not_le]
  exact hend

end SignedNumeral

/-! ## Integers that are written -/

/-- An integer as it is written. -/
def SignedNumeral.ofInt (z : ℤ) : SignedNumeral :=
  ⟨if z < 0 then .minus else .absent, natDigits z.natAbs, isNumeral_natDigits z.natAbs⟩

theorem SignedNumeral.chars_ofInt (z : ℤ) : (ofInt z).chars = intDigits z := by
  rw [chars, ofInt, intDigits]
  split <;> rfl

theorem SignedNumeral.value_ofInt (z : ℤ) : (ofInt z).value = z := by
  have hvalue : Nat.ofDigitChars 10 (natDigits z.natAbs) 0 = z.natAbs :=
    Nat.ofDigitChars_ten_toDigits
  rw [value, ofInt]
  dsimp only
  rw [hvalue]
  split
  · change -(z.natAbs : ℤ) = z
    omega
  · change (z.natAbs : ℤ) = z
    omega

/-- What is written is read back, if it fits a signed word. -/
theorem readInt64_intDigits {n : ℤ} (hmin : Int64.minValue.toInt ≤ n)
    (hmax : n ≤ Int64.maxValue.toInt) : readInt64 (intDigits n) = .number n := by
  have hword : (SignedNumeral.ofInt n).IsWord := by
    rw [SignedNumeral.IsWord, SignedNumeral.value_ofInt]
    exact ⟨hmin, hmax⟩
  have hread := SignedNumeral.readInt64_of_isWord hword
  rwa [SignedNumeral.chars_ofInt, SignedNumeral.value_ofInt] at hread

theorem intDigits_ne_nil (n : ℤ) : intDigits n ≠ [] := by
  rw [intDigits]
  split
  · exact List.cons_ne_nil _ _
  · exact (isNumeral_natDigits n.natAbs).1

theorem of_mem_intDigits {n : ℤ} {c : Char} (h : c ∈ intDigits n) :
    c.isDigit = true ∨ c = '+' ∨ c = '-' := by
  rw [← SignedNumeral.chars_ofInt] at h
  exact SignedNumeral.of_mem_chars h

theorem solid_intDigits (n : ℤ) : Solid (intDigits n) := by
  have hdigits := (isNumeral_natDigits n.natAbs).solid
  rw [intDigits]
  split
  · exact List.forall_mem_cons.mpr ⟨by decide, hdigits⟩
  · exact hdigits

end LessonDeck.Text
