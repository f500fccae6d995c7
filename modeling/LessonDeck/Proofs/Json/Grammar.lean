import LessonDeck.Proofs.Json.Number
import LessonDeck.Proofs.Json.Text
/-!
# The grammar

A value has many texts, as blanks may stand around every token.  Strings and numbers are taken in the
one spelling in which they are written.  Whatever a text spells is what is read from it.
-/

namespace LessonDeck.Json

/-- A run of characters that may stand between tokens. -/
def Blanks (ws : List Char) : Prop :=
  ∀ c ∈ ws, c = ' ' ∨ c = '\n' ∨ c = '\t' ∨ c = '\r'

theorem blanks_nil : Blanks [] :=
  nofun

mutual

/-- The text spells the value, perhaps after some blanks. -/
inductive Spells : Json → List Char → Prop where
  | after {ws : List Char} {j : Json} {cs : List Char} (hws : Blanks ws) (h : Spells j cs) :
      Spells j (ws ++ cs)
  | null : Spells null "null".toList
  | true : Spells (bool true) "true".toList
  | false : Spells (bool false) "false".toList
  | number {l : Literal} (h : l.Proper) : Spells l.value l.chars
  | string (s : String) : Spells (string s) (quoted s)
  | emptyArray {ws : List Char} (hws : Blanks ws) : Spells (array []) ('[' :: (ws ++ [']']))
  | array {items : List Json} {cs : List Char} (h : SpellsItems items cs) :
      Spells (array items) ('[' :: cs)
  | emptyObject {ws : List Char} (hws : Blanks ws) : Spells (object []) ('{' :: (ws ++ ['}']))
  | object {members : List (String × Json)} {cs : List Char} (h : SpellsMembers members cs) :
      Spells (object members) ('{' :: cs)

/-- The text spells the items of an array and its closing bracket. -/
inductive SpellsItems : List Json → List Char → Prop where
  | last {item : Json} {cs ws : List Char} (h : Spells item cs) (hws : Blanks ws) :
      SpellsItems [item] (cs ++ (ws ++ [']']))
  | cons {item : Json} {items : List Json} {cs ws ds : List Char} (h : Spells item cs)
      (hws : Blanks ws) (hitems : SpellsItems items ds) :
      SpellsItems (item :: items) (cs ++ (ws ++ ',' :: ds))

/-- The text spells the members of an object and its closing brace. -/
inductive SpellsMembers : List (String × Json) → List Char → Prop where
  | last {name : String} {value : Json} {front mid cs ws : List Char} (hfront : Blanks front)
      (hmid : Blanks mid) (h : Spells value cs) (hws : Blanks ws) :
      SpellsMembers [(name, value)] (front ++ (quoted name ++ (mid ++ ':' :: (cs ++ (ws ++ ['}'])))))
  | cons {name : String} {value : Json} {members : List (String × Json)}
      {front mid cs ws ds : List Char} (hfront : Blanks front) (hmid : Blanks mid)
      (h : Spells value cs) (hws : Blanks ws) (hmembers : SpellsMembers members ds) :
      SpellsMembers ((name, value) :: members)
        (front ++ (quoted name ++ (mid ++ ':' :: (cs ++ (ws ++ ',' :: ds)))))

end

/-! ## Blanks and first characters -/

theorem skipBlanks_append {ws : List Char} (h : Blanks ws) (rest : List Char) :
    skipBlanks (ws ++ rest) = skipBlanks rest := by
  induction ws with
  | nil => rfl
  | cons c ws ih =>
      obtain ⟨hc, hws⟩ := List.forall_mem_cons.mp h
      rw [List.cons_append, skipBlanks, if_pos hc, ih hws]

theorem skipBlanks_cons {c : Char} (h : ¬ (c = ' ' ∨ c = '\n' ∨ c = '\t' ∨ c = '\r'))
    (rest : List Char) : skipBlanks (c :: rest) = c :: rest := by
  rw [skipBlanks, if_neg h]

theorem skipBlanks_skipBlanks (cs : List Char) : skipBlanks (skipBlanks cs) = skipBlanks cs := by
  induction cs with
  | nil => rfl
  | cons c cs ih =>
      rw [skipBlanks]
      split
      · exact ih
      · next h => exact skipBlanks_cons h cs

theorem endsNumber_append {ws rest : List Char} (h : Blanks ws) (hrest : EndsNumber rest) :
    EndsNumber (ws ++ rest) := by
  cases ws with
  | nil => exact hrest
  | cons c ws =>
      rintro d hd
      obtain rfl := Option.some.inj hd
      obtain rfl | rfl | rfl | rfl := h c List.mem_cons_self <;> decide

theorem endsNumber_nil : EndsNumber [] :=
  nofun

theorem endsNumber_comma (rest : List Char) : EndsNumber (',' :: rest) :=
  fun _ hc ↦ Option.some.inj hc ▸ by decide

theorem endsNumber_bracket (rest : List Char) : EndsNumber (']' :: rest) :=
  fun _ hc ↦ Option.some.inj hc ▸ by decide

theorem endsNumber_brace (rest : List Char) : EndsNumber ('}' :: rest) :=
  fun _ hc ↦ Option.some.inj hc ▸ by decide

/-- A literal begins with its sign or with a digit. -/
theorem Literal.Proper.chars_eq_cons {l : Literal} (h : l.Proper) :
    ∃ c cs, l.chars = c :: cs ∧ (c = '-' ∨ c.isDigit = true) := by
  obtain ⟨negative, whole, fraction, exponent⟩ := l
  cases negative with
  | true => exact ⟨_, _, rfl, .inl rfl⟩
  | false =>
      cases whole with
      | nil => exact (h.whole.1 rfl).elim
      | cons d digits => exact ⟨_, _, rfl, .inr (h.whole.2 d List.mem_cons_self)⟩

theorem readValue_skipBlanks (fuel : ℕ) (cs : List Char) :
    readValue fuel (skipBlanks cs) = readValue fuel cs := by
  cases fuel with
  | zero => rfl
  | succ fuel => rw [readValue, readValue, skipBlanks_skipBlanks]

theorem readItems_skipBlanks (fuel : ℕ) (before : List Json) (cs : List Char) :
    readItems fuel before (skipBlanks cs) = readItems fuel before cs := by
  cases fuel with
  | zero => rfl
  | succ fuel => rw [readItems, readItems, readValue_skipBlanks]

theorem readMembers_skipBlanks (fuel : ℕ) (before : Option (List (String × Json)))
    (cs : List Char) : readMembers fuel before (skipBlanks cs) = readMembers fuel before cs := by
  cases fuel with
  | zero => rfl
  | succ fuel => rw [readMembers, readMembers, skipBlanks_skipBlanks]

theorem readValue_number {c : Char} (h : c = '-' ∨ c.isDigit = true) (fuel : ℕ)
    (cs : List Char) : readValue (fuel + 1) (c :: cs) = readNumber (c :: cs) := by
  have hother : ∀ d : Char, d.isDigit = false → d ≠ '-' → c ≠ d := by
    rintro d hdigit hsign rfl
    exact h.elim hsign fun hc ↦ Bool.false_ne_true (hdigit.symm.trans hc)
  have hblank : ¬ (c = ' ' ∨ c = '\n' ∨ c = '\t' ∨ c = '\r') := by
    rintro (rfl | rfl | rfl | rfl) <;> revert h <;> decide
  rw [readValue, skipBlanks_cons hblank]
  split
  · next heq => exact (hother 'n' rfl (by decide) (List.cons.inj heq).1).elim
  · next heq => exact (hother 't' rfl (by decide) (List.cons.inj heq).1).elim
  · next heq => exact (hother 'f' rfl (by decide) (List.cons.inj heq).1).elim
  · next heq => exact (hother '"' rfl (by decide) (List.cons.inj heq).1).elim
  · next heq => exact (hother '[' rfl (by decide) (List.cons.inj heq).1).elim
  · next heq => exact (hother '{' rfl (by decide) (List.cons.inj heq).1).elim
  · rfl

/-- A value does not begin with a closing bracket. -/
theorem Spells.visible (rest : List Char) : ∀ {j : Json} {cs : List Char}, Spells j cs →
    ∃ c ds, skipBlanks (cs ++ rest) = c :: ds ∧ c ≠ ']'
  | _, _, .after hws h => by
      rw [List.append_assoc, skipBlanks_append hws]
      exact h.visible rest
  | _, _, .number h => by
      obtain ⟨c, ds, heq, hc⟩ := h.chars_eq_cons
      have hblank : ¬ (c = ' ' ∨ c = '\n' ∨ c = '\t' ∨ c = '\r') := by
        rintro (rfl | rfl | rfl | rfl) <;> revert hc <;> decide
      refine ⟨c, ds ++ rest, by rw [heq]; exact skipBlanks_cons hblank _, ?_⟩
      rintro rfl
      revert hc
      decide
  | _, _, .null | _, _, .true | _, _, .false | _, _, .string _ | _, _, .emptyArray _
  | _, _, .array _ | _, _, .emptyObject _ | _, _, .object _ =>
      ⟨_, _, skipBlanks_cons (by decide) _, by decide⟩

theorem SpellsItems.visible {items : List Json} {cs : List Char} (h : SpellsItems items cs)
    (rest : List Char) : ∃ c ds, skipBlanks (cs ++ rest) = c :: ds ∧ c ≠ ']' := by
  cases h with
  | last h =>
      rw [List.append_assoc]
      exact h.visible _
  | cons h =>
      rw [List.append_assoc]
      exact h.visible _

theorem SpellsItems.length_pos {items : List Json} {cs : List Char} (h : SpellsItems items cs) :
    0 < cs.length := by
  cases h <;> simp

theorem SpellsMembers.visible {members : List (String × Json)} {cs : List Char}
    (h : SpellsMembers members cs) (rest : List Char) :
    ∃ ds, skipBlanks (cs ++ rest) = '"' :: ds := by
  cases h with
  | last hfront =>
      rw [List.append_assoc, skipBlanks_append hfront]
      exact ⟨_, skipBlanks_cons (by decide) _⟩
  | cons hfront =>
      rw [List.append_assoc, skipBlanks_append hfront]
      exact ⟨_, skipBlanks_cons (by decide) _⟩

theorem SpellsMembers.length_pos {members : List (String × Json)} {cs : List Char}
    (h : SpellsMembers members cs) : 0 < cs.length := by
  cases h <;> simp

/-! ## Reading what is spelled -/

mutual

/-- Two steps for every character suffice. -/
theorem Spells.readValue_append : ∀ {j : Json} {cs : List Char}, Spells j cs →
    ∀ (fuel : ℕ) (rest : List Char), 2 * cs.length ≤ fuel + 2 → EndsNumber rest →
      readValue (fuel + 1) (cs ++ rest) = some (j, rest)
  | _, _, .after hws h, fuel, rest, hfuel, hrest => by
      rw [List.length_append] at hfuel
      rw [← readValue_skipBlanks, List.append_assoc, skipBlanks_append hws, readValue_skipBlanks]
      exact h.readValue_append fuel rest (by omega) hrest
  | _, _, .null, fuel, rest, _, _ => rfl
  | _, _, .true, fuel, rest, _, _ => rfl
  | _, _, .false, fuel, rest, _, _ => rfl
  | _, _, .number h, fuel, rest, _, hrest => by
      obtain ⟨c, ds, heq, hc⟩ := h.chars_eq_cons
      have hread := readNumber_chars h hrest
      rw [heq] at hread ⊢
      rw [List.cons_append, readValue_number hc]
      exact hread
  | _, _, .string s, fuel, rest, _, _ => by
      change readValue (fuel + 1) ('"' :: (s.toList.flatMap escape ++ ['"']) ++ rest) = _
      rw [List.cons_append, List.append_assoc, List.singleton_append, readValue,
        skipBlanks_cons (by decide)]
      simp only [readText_quoted]
  | _, _, .emptyArray hws, fuel, rest, _, _ => by
      rw [List.cons_append, List.append_assoc, readValue, skipBlanks_cons (by decide)]
      simp only [skipBlanks_append hws]
      rfl
  | _, _, .array h, fuel, rest, hfuel, _ => by
      rw [List.length_cons] at hfuel
      obtain ⟨c, ds, hvisible, hc⟩ := h.visible rest
      have hpos := h.length_pos
      obtain ⟨fuel, rfl⟩ := Nat.exists_eq_add_one.mpr (show 0 < fuel by omega)
      have hread := h.readItems_append fuel [] rest (by omega)
      rw [← readItems_skipBlanks, hvisible] at hread
      rw [List.cons_append, readValue, skipBlanks_cons (by decide)]
      simp only [hvisible]
      split
      · next heq => exact (hc (List.cons.inj heq).1).elim
      · exact hread
  | _, _, .emptyObject hws, fuel, rest, _, _ => by
      rw [List.cons_append, List.append_assoc, readValue, skipBlanks_cons (by decide)]
      simp only [skipBlanks_append hws]
      rfl
  | _, _, .object h, fuel, rest, hfuel, _ => by
      rw [List.length_cons] at hfuel
      obtain ⟨ds, hvisible⟩ := h.visible rest
      have hpos := h.length_pos
      obtain ⟨fuel, rfl⟩ := Nat.exists_eq_add_one.mpr (show 0 < fuel by omega)
      have hread := h.readMembers_append fuel [] rest (by omega)
      rw [← readMembers_skipBlanks, hvisible] at hread
      rw [List.cons_append, readValue, skipBlanks_cons (by decide)]
      simp only [hvisible]
      exact hread

theorem SpellsItems.readItems_append : ∀ {items : List Json} {cs : List Char},
    SpellsItems items cs → ∀ (fuel : ℕ) (before : List Json) (rest : List Char),
      2 * cs.length ≤ fuel + 1 →
        readItems (fuel + 1) before (cs ++ rest) = some (array (before.reverse ++ items), rest)
  | _, _, .last h hws, fuel, before, rest, hfuel => by
      simp only [List.length_append, List.length_singleton] at hfuel
      obtain ⟨fuel, rfl⟩ := Nat.exists_eq_add_one.mpr (show 0 < fuel by omega)
      have hread := h.readValue_append fuel _ (by omega)
        (endsNumber_append hws (endsNumber_bracket rest))
      rw [List.append_assoc, List.append_assoc, List.singleton_append, readItems, hread]
      simp only [skipBlanks_append hws, skipBlanks_cons (c := ']') (by decide), List.reverse_cons]
  | _, _, .cons h hws hitems, fuel, before, rest, hfuel => by
      simp only [List.length_append, List.length_cons] at hfuel
      obtain ⟨fuel, rfl⟩ := Nat.exists_eq_add_one.mpr (show 0 < fuel by omega)
      have hread := fun next ↦ h.readValue_append fuel _ (by omega)
        (endsNumber_append hws (endsNumber_comma next))
      have hrest := fun found ↦ hitems.readItems_append fuel found rest (by omega)
      rw [List.append_assoc, List.append_assoc, List.cons_append, readItems, hread]
      simp only [skipBlanks_append hws, skipBlanks_cons (c := ',') (by decide)]
      rw [hrest, List.reverse_cons, List.append_assoc, List.singleton_append]

theorem SpellsMembers.readMembers_append : ∀ {members : List (String × Json)} {cs : List Char},
    SpellsMembers members cs → ∀ (fuel : ℕ) (before : List (String × Json)) (rest : List Char),
      2 * cs.length ≤ fuel + 1 →
        readMembers (fuel + 1) (some before) (cs ++ rest) =
          some (object (before.reverse ++ members), rest)
  | _, _, .last hfront hmid h hws, fuel, before, rest, hfuel => by
      simp only [List.length_append, List.length_cons, List.length_nil] at hfuel
      obtain ⟨fuel, rfl⟩ := Nat.exists_eq_add_one.mpr (show 0 < fuel by omega)
      have hread := h.readValue_append fuel _ (by omega)
        (endsNumber_append hws (endsNumber_brace rest))
      rw [readMembers, List.append_assoc, skipBlanks_append hfront]
      simp only [quoted, List.cons_append, List.append_assoc, List.nil_append,
        skipBlanks_cons (c := '"') (by decide), readText_quoted, skipBlanks_append hmid,
        skipBlanks_cons (c := ':') (by decide), hread, skipBlanks_append hws,
        skipBlanks_cons (c := '}') (by decide)]
      simp
  | _, _, .cons hfront hmid h hws hmembers, fuel, before, rest, hfuel => by
      simp only [List.length_append, List.length_cons] at hfuel
      obtain ⟨fuel, rfl⟩ := Nat.exists_eq_add_one.mpr (show 0 < fuel by omega)
      have hread := fun next ↦ h.readValue_append fuel _ (by omega)
        (endsNumber_append hws (endsNumber_comma next))
      have hrest := fun found ↦ hmembers.readMembers_append fuel found rest (by omega)
      rw [readMembers, List.append_assoc, skipBlanks_append hfront]
      simp only [quoted, List.cons_append, List.append_assoc, List.nil_append,
        skipBlanks_cons (c := '"') (by decide), readText_quoted, skipBlanks_append hmid,
        skipBlanks_cons (c := ':') (by decide), hread, skipBlanks_append hws,
        skipBlanks_cons (c := ',') (by decide), Option.map_some, Option.bind_some]
      rw [hrest, List.reverse_cons, List.append_assoc, List.singleton_append]

end

/-- What a text spells is what is read from it, blanks behind it aside. -/
theorem parse?_of_spells {j : Json} {cs ws : List Char} (h : Spells j cs) (hws : Blanks ws) :
    parse? (String.ofList (cs ++ ws)) = some j := by
  have hends : EndsNumber ws := List.append_nil ws ▸ endsNumber_append hws endsNumber_nil
  have hread := h.readValue_append (2 * (cs ++ ws).length + 1) ws
    (by rw [List.length_append]; omega) hends
  have hskip : skipBlanks ws = [] := List.append_nil ws ▸ skipBlanks_append hws []
  rw [parse?, String.toList_ofList]
  simp only [hread, hskip]
  rfl

end LessonDeck.Json
