import LessonDeck.Json.Shape
import LessonDeck.Proofs.Json.Layout
/-!
# Shapes that are found again

Words and lists are found in what they were written as.  A value whose integers fit into words, and
which has no double in it, comes back from its text as it was.
-/

namespace LessonDeck.Json

/-! ## Values that come back as they were -/

theorem reread_int {n : ℤ} (hmin : -0x8000000000000000 ≤ n) (hmax : n ≤ 0xFFFFFFFFFFFFFFFF) :
    (int n).reread = int n :=
  Literal.value_ofInt hmin hmax

theorem reread_int64 (n : Int64) : (int n.toInt).reread = int n.toInt := by
  have hle := n.le_toInt
  have hlt := n.toInt_lt
  exact reread_int (by omega) (by omega)

theorem reread_nat {n : ℕ} (h : n < 2 ^ 64) : (nat n).reread = nat n :=
  reread_int (by omega) (by omega)

theorem rereadItems_eq_map (items : List Json) : rereadItems items = items.map reread := by
  induction items with
  | nil => rfl
  | cons item items ih => rw [rereadItems, ih, List.map_cons]

/-! ## Words -/

theorem int64?_int (n : Int64) : (int n.toInt).int64? = some n := by
  rw [int64?, intIn?, if_pos ⟨n.minValue_le_toInt, n.toInt_le⟩, Option.map_some, Int64.ofInt_toInt]

theorem natOfBits?_nat {n bits : ℕ} (h : n < 2 ^ bits) : (nat n).natOfBits? bits = some n := by
  have hmax : (n : ℤ) ≤ Nat.pow 2 bits - 1 := by
    have hcast : (n : ℤ) < ((2 ^ bits : ℕ) : ℤ) := by exact_mod_cast h
    change (n : ℤ) ≤ ((2 ^ bits : ℕ) : ℤ) - 1
    omega
  rw [natOfBits?, nat, intIn?, if_pos ⟨Int.natCast_nonneg n, hmax⟩, Option.map_some,
    Int.toNat_natCast]

/-! ## Lists -/

theorem readAll?_map {α β γ : Type} {read : β → Option γ} {write : α → β} {f : α → γ} {as : List α}
    (h : ∀ a ∈ as, read (write a) = some (f a)) : readAll? read (as.map write) = some (as.map f) := by
  induction as with
  | nil => rfl
  | cons a as ih =>
      obtain ⟨ha, has⟩ := List.forall_mem_cons.mp h
      rw [List.map_cons, readAll?, ha, ih has]
      rfl

theorem items?_map {α : Type} {read : Json → Option α} {write : α → Json}
    (h : ∀ a, read (write a) = some a) (as : List α) :
    (array (as.map write)).items? read = some as := by
  rw [items?, readAll?_map (f := id) fun a _ ↦ h a, List.map_id]

/-- A table is found in an object that was written with the same names. -/
theorem table?_map {κ α : Type} {key : String → Option κ} {read : Json → Option α}
    {name : κ → String} {write : α → Json} (hkey : ∀ k, key (name k) = some k)
    (hread : ∀ a, read (write a) = some a) (table : List (κ × α)) :
    (object (table.map fun b ↦ (name b.1, write b.2))).table? key read = some table := by
  rw [table?, readAll?_map (f := id), List.map_id]
  intro b _
  dsimp only
  rw [hkey, hread]
  rfl

end LessonDeck.Json
