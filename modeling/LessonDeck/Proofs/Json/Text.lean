import LessonDeck.Json.Read
import LessonDeck.Json.Write
import Mathlib.Data.Nat.Notation
/-!
# Strings that are written out

Every character comes back from behind its escape, and a text from between its quotation marks.
-/

namespace LessonDeck.Json

theorem hexValue?_hexDigit : ∀ n < 16, hexValue? (hexDigit n) = some n := by
  decide

theorem hex4?_hexDigit {n : ℕ} (h : n < 32) :
    hex4? '0' '0' (hexDigit (n / 16)) (hexDigit (n % 16)) = some n := by
  have hhigh := hexValue?_hexDigit (n / 16) (by omega)
  have hlow := hexValue?_hexDigit (n % 16) (by omega)
  have hzero : hexValue? '0' = some 0 := rfl
  rw [hex4?, hhigh, hlow, hzero]
  simp only [Option.bind_eq_bind, Option.bind_some, Option.pure_def]
  congr 1
  omega

theorem readText_control {c : Char} (h : c.toNat < 32) (acc rest : List Char) :
    readText (some acc) none ('\\' :: 'u' :: '0' :: '0' :: hexDigit (c.toNat / 16) ::
      hexDigit (c.toNat % 16) :: rest) = readText (some (c :: acc)) none rest := by
  have hlow : isLowHalf c.toNat = false := by
    rw [isLowHalf, Bool.and_eq_false_iff]
    exact .inl (decide_eq_false (by omega))
  have hhigh : isHighHalf c.toNat = false := by
    rw [isHighHalf, Bool.and_eq_false_iff]
    exact .inl (decide_eq_false (by omega))
  rw [readText, hex4?_hexDigit h]
  simp only [hlow, hhigh, Char.ofNat_toNat]
  rfl

theorem readText_plain {c : Char} (hquote : c ≠ '"') (hslash : c ≠ '\\') (h : ¬ c.toNat < 32)
    (acc rest : List Char) :
    readText (some acc) none (c :: rest) = readText (some (c :: acc)) none rest := by
  rw [readText]
  · rw [if_neg h]
    rfl
  all_goals simp [hquote, hslash]

theorem readText_letter {e c : Char} (h : unescape? e = some c) (acc rest : List Char) :
    readText (some acc) none ('\\' :: e :: rest) = readText (some (c :: acc)) none rest := by
  have hu : e ≠ 'u' := by
    rintro rfl
    exact nomatch h
  rw [readText]
  · rw [h]
    rfl
  · simp [hu]

theorem readText_escape (c : Char) (acc rest : List Char) :
    readText (some acc) none (escape c ++ rest) = readText (some (c :: acc)) none rest := by
  have hcode : ∀ n : ℕ, c.toNat = n → c = Char.ofNat n := fun n hn ↦ by rw [← hn, Char.ofNat_toNat]
  rw [escape]
  split
  · next h =>
    subst h
    exact readText_letter rfl acc rest
  split
  · next h =>
    subst h
    exact readText_letter rfl acc rest
  split
  · next h =>
    subst h
    exact readText_letter rfl acc rest
  split
  · next h =>
    subst h
    exact readText_letter rfl acc rest
  split
  · next h =>
    subst h
    exact readText_letter rfl acc rest
  split
  · next h => exact readText_letter (hcode 8 h ▸ rfl) acc rest
  split
  · next h => exact readText_letter (hcode 12 h ▸ rfl) acc rest
  split
  · next h => exact readText_control h acc rest
  · next hquote hslash _ _ _ _ _ h => exact readText_plain hquote hslash h acc rest

theorem readText_escapes (cs acc rest : List Char) :
    readText (some acc) none (cs.flatMap escape ++ rest) =
      readText (some (cs.reverse ++ acc)) none rest := by
  induction cs generalizing acc with
  | nil => rfl
  | cons c cs ih =>
      rw [List.flatMap_cons, List.append_assoc, readText_escape, ih, List.reverse_cons,
        List.append_assoc]
      rfl

/-- A quoted text behind its first quotation mark is read up to its last one. -/
theorem readText_quoted (s : String) (rest : List Char) :
    readText (some []) none (s.toList.flatMap escape ++ '"' :: rest) = some (some s, rest) := by
  rw [readText_escapes, List.append_nil, readText]
  simp [settled]

end LessonDeck.Json
