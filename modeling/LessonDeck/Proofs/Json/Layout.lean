import LessonDeck.Proofs.Json.Double
import LessonDeck.Proofs.Json.Grammar
/-!
# Both layouts are read back

A value that is written out is a spelling, in either layout.  What comes back is the value itself,
but for its numbers: an integer beyond the words comes back as a double, a double as what its
decimal denotes, and what denotes nothing as null.
-/

namespace LessonDeck.Json

open Text

mutual

/-- What comes back when a value is written and read again. -/
def reread : Json → Json
  | null => null
  | bool b => bool b
  | int n => (Literal.ofInt n).value
  | float x => ((doubleLiteral? x).map Literal.value).getD null
  | string s => string s
  | array items => array (rereadItems items)
  | object members => object (rereadMembers members)
  | garbled => null

def rereadItems : List Json → List Json
  | [] => []
  | item :: items => reread item :: rereadItems items

def rereadMembers : List (String × Json) → List (String × Json)
  | [] => []
  | (name, value) :: members => (name, reread value) :: rereadMembers members

end

theorem spells_int (n : ℤ) : Spells (reread (int n)) (intDigits n) := by
  rw [reread, ← Literal.chars_ofInt]
  exact .number (Literal.proper_ofInt n)

theorem spells_float (x : Float) : Spells (reread (float x)) (floatChars x) := by
  rw [reread, floatChars_eq]
  cases h : doubleLiteral? x with
  | none => exact .null
  | some l => exact .number (proper_of_doubleLiteral? h)

/-! ## Without blanks -/

mutual

theorem spells_compactChars : ∀ j : Json, Spells j.reread j.compactChars
  | null => .null
  | bool true => .true
  | bool false => .false
  | int n => spells_int n
  | float x => spells_float x
  | string s => .string s
  | array [] => .emptyArray blanks_nil
  | array (item :: items) => .array (spellsItems_compactItems (item :: items) (by simp))
  | object [] => .emptyObject blanks_nil
  | object (member :: members) => .object (spellsMembers_compactMembers (member :: members) (by simp))
  | garbled => .null

theorem spellsItems_compactItems : ∀ items : List Json, items ≠ [] →
    SpellsItems (rereadItems items) (compactItems items ++ [']'])
  | [], hne => (hne rfl).elim
  | [item], _ => .last (spells_compactChars item) blanks_nil
  | item :: next :: items, _ => by
      rw [rereadItems, compactItems, List.append_assoc]
      · exact .cons (spells_compactChars item) blanks_nil
          (spellsItems_compactItems (next :: items) (by simp))
      · simp

theorem spellsMembers_compactMembers : ∀ members : List (String × Json), members ≠ [] →
    SpellsMembers (rereadMembers members) (compactMembers members ++ ['}'])
  | [], hne => (hne rfl).elim
  | [(name, value)], _ => by
      rw [rereadMembers, compactMembers, List.append_assoc]
      exact .last blanks_nil blanks_nil (spells_compactChars value) blanks_nil
  | (name, value) :: next :: members, _ => by
      rw [rereadMembers, compactMembers]
      · simp only [List.append_assoc, List.cons_append]
        exact .cons blanks_nil blanks_nil (spells_compactChars value) blanks_nil
          (spellsMembers_compactMembers (next :: members) (by simp))
      · simp

end

theorem parse?_compact (j : Json) : parse? j.compact = some j.reread := by
  have h := parse?_of_spells (spells_compactChars j) blanks_nil
  rwa [List.append_nil] at h

/-! ## Over lines -/

theorem blanks_newLine (level : ℕ) : Blanks (newLine level) := by
  intro c hc
  obtain rfl | hc := List.mem_cons.mp hc
  · exact .inr (.inl rfl)
  · exact .inl (List.eq_of_mem_replicate hc)

theorem blanks_space : Blanks [' '] := by
  intro c hc
  exact .inl (List.mem_singleton.mp hc)

mutual

theorem spells_prettyChars : ∀ (level : ℕ) (j : Json), Spells j.reread (prettyChars level j)
  | _, null => .null
  | _, bool true => .true
  | _, bool false => .false
  | _, int n => spells_int n
  | _, float x => spells_float x
  | _, string s => .string s
  | _, array [] => .emptyArray blanks_nil
  | level, array (item :: items) =>
      .array (spellsItems_prettyItems level (level + 1) (item :: items) (by simp))
  | _, object [] => .emptyObject blanks_nil
  | level, object (member :: members) =>
      .object (spellsMembers_prettyMembers level (level + 1) (member :: members) (by simp))
  | _, garbled => .null

theorem spellsItems_prettyItems (outer : ℕ) : ∀ (level : ℕ) (items : List Json), items ≠ [] →
    SpellsItems (rereadItems items) (prettyItems level items ++ newLine outer ++ [']'])
  | _, [], hne => (hne rfl).elim
  | level, [item], _ => by
      rw [rereadItems, prettyItems, List.append_assoc]
      exact .last (.after (blanks_newLine level) (spells_prettyChars level item))
        (blanks_newLine outer)
  | level, item :: next :: items, _ => by
      rw [rereadItems, prettyItems]
      · have hitems := spellsItems_prettyItems outer level (next :: items) (by simp)
        have hitem := Spells.after (blanks_newLine level) (spells_prettyChars level item)
        simpa only [List.append_assoc, List.cons_append, List.nil_append] using
          SpellsItems.cons hitem blanks_nil hitems
      · simp

theorem spellsMembers_prettyMembers (outer : ℕ) :
    ∀ (level : ℕ) (members : List (String × Json)), members ≠ [] →
      SpellsMembers (rereadMembers members) (prettyMembers level members ++ newLine outer ++ ['}'])
  | _, [], hne => (hne rfl).elim
  | level, [(name, value)], _ => by
      have hvalue := Spells.after blanks_space (spells_prettyChars level value)
      rw [rereadMembers, rereadMembers, prettyMembers]
      simpa only [List.append_assoc, List.cons_append, List.nil_append] using
        SpellsMembers.last (blanks_newLine level) blanks_nil hvalue (blanks_newLine outer)
  | level, (name, value) :: next :: members, _ => by
      have hvalue := Spells.after blanks_space (spells_prettyChars level value)
      have hmembers := spellsMembers_prettyMembers outer level (next :: members) (by simp)
      rw [rereadMembers, prettyMembers]
      · simpa only [List.append_assoc, List.cons_append, List.nil_append] using
          SpellsMembers.cons (blanks_newLine level) blanks_nil hvalue blanks_nil hmembers
      · simp

end

theorem parse?_pretty (j : Json) : parse? j.pretty = some j.reread := by
  have h := parse?_of_spells (spells_prettyChars 0 j) blanks_nil
  rwa [List.append_nil] at h

end LessonDeck.Json
