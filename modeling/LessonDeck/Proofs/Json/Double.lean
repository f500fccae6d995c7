import LessonDeck.Json.Write
import LessonDeck.Proofs.Json.Number
/-!
# Doubles that are written out

The exchange layout of a double is the spelling of a literal with a point or an exponent.
-/

namespace LessonDeck

open Text

namespace Decimal

/-- The decimal has a leading digit, or it is zero and has one digit. -/
def Scaled.HasLead (s : Scaled) : Prop :=
  0 < s.digits ∨ s.exponent = 0

theorem hasLead_of_onGrid? {i : Interval} {exponent power : ℤ} {s : Scaled}
    (h : onGrid? i exponent power = some s) : s.HasLead := by
  rw [onGrid?] at h
  split at h
  · exact nomatch h
  · next hbelow _ =>
    obtain rfl := Option.some.inj h
    rw [Bool.and_eq_true, bne_iff_ne] at hbelow
    exact .inl (Nat.pos_of_ne_zero hbelow.1)
  · obtain rfl := Option.some.inj h
    exact .inl (Nat.succ_pos _)
  · next hbelow _ =>
    rw [Bool.and_eq_true, bne_iff_ne] at hbelow
    split at h
    · obtain rfl := Option.some.inj h
      exact .inl (Nat.pos_of_ne_zero hbelow.1)
    · obtain rfl := Option.some.inj h
      exact .inl (Nat.succ_pos _)

theorem hasLead_firstGrid (i : Interval) (exponent : ℤ) (finer : ℕ) (power : ℤ) :
    (firstGrid i exponent finer power).HasLead := by
  induction finer generalizing power with
  | zero =>
      rw [firstGrid]
      cases h : onGrid? i exponent power with
      | none => exact .inr rfl
      | some s => exact hasLead_of_onGrid? h
  | succ finer ih =>
      rw [firstGrid]
      cases h : onGrid? i exponent power with
      | none => exact ih (power - 1)
      | some s => exact hasLead_of_onGrid? h

theorem hasLead_shortest (significand : ℕ) (exponent : ℤ) :
    (shortest significand exponent).HasLead :=
  hasLead_firstGrid _ _ _ _

end Decimal

namespace Json

/-- The literal that shows a decimal for exchange. -/
def Literal.ofScaled (negative : Bool) (s : Decimal.Scaled) : Literal :=
  let digits := natDigits s.digits
  let whole : ℤ := digits.length + s.exponent
  let power := some (decide (whole - 1 < 0), natDigits (whole - 1).natAbs)
  if 0 ≤ s.exponent ∧ whole ≤ 16 then
    ⟨negative, digits ++ Decimal.zeros s.exponent.toNat, some ['0'], none⟩
  else if 0 < whole ∧ whole ≤ 16 then
    ⟨negative, digits.take whole.toNat, some (digits.drop whole.toNat), none⟩
  else if -5 < whole ∧ whole ≤ 0 then
    ⟨negative, ['0'], some (Decimal.zeros (-whole).toNat ++ digits), none⟩
  else if digits.length = 1 then ⟨negative, digits, none, power⟩
  else ⟨negative, digits.take 1, some (digits.drop 1), power⟩

theorem Literal.exponentChars_natDigits (n : ℤ) :
    exponentChars (some (decide (n < 0), natDigits n.natAbs)) = 'e' :: intDigits n := by
  rw [exponentChars, intDigits, Decimal.signed]
  simp

theorem Literal.chars_ofScaled (negative : Bool) (s : Decimal.Scaled) :
    (ofScaled negative s).chars = Decimal.signed negative (Decimal.exchangeDigits s) := by
  rw [ofScaled, Decimal.exchangeDigits]
  split
  · simp [chars, fractionChars, exponentChars]
  split
  · simp [chars, fractionChars, exponentChars, Decimal.withPoint]
  split
  · simp [chars, fractionChars, exponentChars]
  split
  · simp only [chars, exponentChars_natDigits, fractionChars, List.append_nil]
  · simp only [chars, exponentChars_natDigits, fractionChars, Decimal.withPoint]

theorem isNumeral_take {ds : List Char} (h : IsNumeral ds) {n : ℕ} (hn : 0 < n) :
    IsNumeral (ds.take n) := by
  refine ⟨fun hnil ↦ ?_, fun d hd ↦ h.2 d (List.mem_of_mem_take hd)⟩
  obtain hzero | hempty := List.take_eq_nil_iff.mp hnil
  · omega
  · exact h.1 hempty

theorem isNumeral_drop {ds : List Char} (h : IsNumeral ds) {n : ℕ} (hn : n < ds.length) :
    IsNumeral (ds.drop n) := by
  refine ⟨fun hnil ↦ ?_, fun d hd ↦ h.2 d (List.mem_of_mem_drop hd)⟩
  rw [List.drop_eq_nil_iff] at hnil
  omega

theorem isNumeral_zeros_append {ds : List Char} (h : IsNumeral ds) (n : ℕ) :
    IsNumeral (Decimal.zeros n ++ ds) := by
  refine ⟨fun hnil ↦ h.1 (List.append_eq_nil_iff.mp hnil).2, fun d hd ↦ ?_⟩
  obtain hzero | hd := List.mem_append.mp hd
  · rw [List.eq_of_mem_replicate hzero]
    rfl
  · exact h.2 d hd

theorem isNumeral_append_zeros {ds : List Char} (h : IsNumeral ds) (n : ℕ) :
    IsNumeral (ds ++ Decimal.zeros n) := by
  refine ⟨fun hnil ↦ h.1 (List.append_eq_nil_iff.mp hnil).1, fun d hd ↦ ?_⟩
  obtain hd | hzero := List.mem_append.mp hd
  · exact h.2 d hd
  · rw [List.eq_of_mem_replicate hzero]
    rfl

theorem Literal.proper_ofScaled (negative : Bool) {s : Decimal.Scaled} (h : s.HasLead) :
    (ofScaled negative s).Proper := by
  have hdigits := isNumeral_natDigits s.digits
  have hpower : ∀ n : ℤ, ∀ e ∈ some (decide (n < 0), natDigits n.natAbs), IsNumeral e.2 :=
    fun n _ he ↦ Option.some.inj he ▸ isNumeral_natDigits n.natAbs
  have hlength : 0 < (natDigits s.digits).length := List.length_pos_of_ne_nil hdigits.1
  -- Only the decimal zero begins with a zero, and it has no other digit.
  have hzero : s.digits = 0 → s.exponent = 0 ∧ natDigits s.digits = ['0'] := by
    intro hs
    refine ⟨h.resolve_left (by omega), ?_⟩
    rw [hs]
    rfl
  have hsingle : IsNumeral ['0'] := isNumeral_natDigits 0
  rw [ofScaled]
  split
  · refine ⟨isNumeral_append_zeros hdigits _, fun hhead ↦ ?_,
      fun _ hd ↦ Option.some.inj hd ▸ hsingle, nofun⟩
    rw [List.head?_append_of_ne_nil _ hdigits.1] at hhead
    obtain ⟨hexp, htext⟩ := hzero (by by_contra hne; exact head?_natDigits (by omega) hhead)
    change natDigits s.digits ++ Decimal.zeros s.exponent.toNat = ['0']
    rw [htext, hexp]
    rfl
  next hfine =>
    have hpos : 0 < s.digits := by
      by_contra hne
      obtain ⟨hexp, htext⟩ := hzero (by omega)
      refine hfine ⟨by omega, ?_⟩
      rw [htext, hexp]
      decide
    have hlead : (natDigits s.digits).head? ≠ some '0' := head?_natDigits hpos
    split
    · next hwhole =>
      refine ⟨isNumeral_take hdigits (by omega), fun hhead ↦ ?_,
        fun _ hd ↦ Option.some.inj hd ▸ isNumeral_drop hdigits (by omega), nofun⟩
      rw [List.head?_take, if_neg (by omega)] at hhead
      exact (hlead hhead).elim
    split
    · exact ⟨hsingle, fun _ ↦ rfl, fun _ hd ↦ Option.some.inj hd ▸ isNumeral_zeros_append hdigits _,
        nofun⟩
    split
    · exact ⟨hdigits, fun hhead ↦ (hlead hhead).elim, nofun, hpower _⟩
    · next hseveral =>
      refine ⟨isNumeral_take hdigits Nat.one_pos, fun hhead ↦ ?_,
        fun _ hd ↦ Option.some.inj hd ▸ isNumeral_drop hdigits (by omega), hpower _⟩
      rw [List.head?_take, if_neg Nat.one_ne_zero] at hhead
      exact (hlead hhead).elim

/-- The literal that a double is written as; what is no finite number has none. -/
def doubleLiteral? (x : Float) : Option Literal :=
  match Decimal.decode x with
  | .nan => none
  | .infinite _ => none
  | .finite negative significand exponent =>
    some <|
      if significand = 0 then ⟨negative, ['0'], some ['0'], none⟩
      else .ofScaled negative (Decimal.shortest significand exponent)

theorem proper_of_doubleLiteral? {x : Float} {l : Literal} (h : doubleLiteral? x = some l) :
    l.Proper := by
  rw [doubleLiteral?] at h
  cases hx : Decimal.decode x with
  | nan =>
      rw [hx] at h
      exact nomatch h
  | infinite negative =>
      rw [hx] at h
      exact nomatch h
  | finite negative significand exponent =>
      rw [hx] at h
      obtain rfl := Option.some.inj h
      split
      · have hsingle : IsNumeral ['0'] := isNumeral_natDigits 0
        exact ⟨hsingle, fun _ ↦ rfl, fun _ hd ↦ Option.some.inj hd ▸ hsingle, nofun⟩
      · exact Literal.proper_ofScaled negative (Decimal.hasLead_shortest significand exponent)

theorem floatChars_eq (x : Float) :
    floatChars x = ((doubleLiteral? x).map Literal.chars).getD "null".toList := by
  rw [floatChars, Decimal.exchange?, doubleLiteral?]
  cases Decimal.decode x with
  | nan => rfl
  | infinite negative => rfl
  | finite negative significand exponent =>
      dsimp only [Option.map_some, Option.getD_some]
      rw [String.toList_ofList]
      split
      · rfl
      · exact (Literal.chars_ofScaled _ _).symm

end Json

end LessonDeck
