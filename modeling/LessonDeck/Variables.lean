import LessonDeck.Value
/-!
# Variables

The variables of a game, in the order of their names.  A name may be absent, uninitialized, or
hold a value; the first two read alike.  `bind`, `erase` and `binding` work on the table as it is,
`write` clamps.  The main statements give the binding of every name after each operation, and that
two tables with the same bindings are equal.
-/

namespace LessonDeck

/-- A variable with what it holds; nothing when it is uninitialized. -/
abbrev Binding :=
  String × Option Int64

/-- A table of variables, each name at most once, in the order of the names. -/
structure Variables where
  entries : List Binding
  ascending : entries.Pairwise fun a b => a.1 < b.1
  deriving Repr, DecidableEq

namespace Variables

/-- Puts a binding in its place, or in place of the one of the same name. -/
def bindEntry (name : String) (held : Option Int64) : List Binding → List Binding
  | [] => [(name, held)]
  | entry :: rest =>
    if name < entry.1 then (name, held) :: entry :: rest
    else if name = entry.1 then (name, held) :: rest
    else entry :: bindEntry name held rest

theorem mem_bindEntry {name : String} {held : Option Int64} {entries : List Binding} {b : Binding}
    (h : b ∈ bindEntry name held entries) : b = (name, held) ∨ b ∈ entries := by
  induction entries with
  | nil => simpa [bindEntry] using h
  | cons entry rest ih =>
    rw [bindEntry] at h
    split at h
    · simpa using h
    · split at h
      · rcases List.mem_cons.1 h with h | h
        · exact .inl h
        · exact .inr (List.mem_cons_of_mem _ h)
      · rcases List.mem_cons.1 h with h | h
        · exact .inr (h ▸ List.mem_cons_self)
        · exact (ih h).imp_right (List.mem_cons_of_mem _)

theorem lt_of_not_lt_of_ne {a b : String} (h : ¬ a < b) (hne : a ≠ b) : b < a :=
  Decidable.byContradiction fun hba =>
    hne (String.le_antisymm (String.not_lt.1 hba) (String.not_lt.1 h))

theorem ascending_bindEntry (name : String) (held : Option Int64) {entries : List Binding}
    (h : entries.Pairwise fun a b => a.1 < b.1) :
    (bindEntry name held entries).Pairwise fun a b => a.1 < b.1 := by
  induction entries with
  | nil => simp [bindEntry]
  | cons entry rest ih =>
    obtain ⟨hfirst, hrest⟩ := List.pairwise_cons.1 h
    rw [bindEntry]
    split
    · next hlt =>
      refine List.pairwise_cons.2 ⟨fun b hb => ?_, h⟩
      rcases List.mem_cons.1 hb with rfl | hb
      · exact hlt
      · exact String.lt_trans hlt (hfirst b hb)
    · next hnlt =>
      split
      · next heq =>
        exact List.pairwise_cons.2 ⟨fun b hb => heq ▸ hfirst b hb, hrest⟩
      · next hne =>
        refine List.pairwise_cons.2 ⟨fun b hb => ?_, ih hrest⟩
        rcases mem_bindEntry hb with rfl | hb
        · exact lt_of_not_lt_of_ne hnlt hne
        · exact hfirst b hb

def empty : Variables :=
  ⟨[], .nil⟩

def bind (vars : Variables) (name : String) (held : Option Int64) : Variables :=
  ⟨bindEntry name held vars.entries, ascending_bindEntry name held vars.ascending⟩

def erase (vars : Variables) (name : String) : Variables :=
  ⟨vars.entries.filter fun b => b.1 != name, vars.ascending.filter _⟩

/-- What a name is bound to, if it is there. -/
def binding (vars : Variables) (name : String) : Option (Option Int64) :=
  (vars.entries.find? fun b => b.1 == name).map Prod.snd

/-- The value of a name, if it is there and initialized. -/
def value? (vars : Variables) (name : String) : Option Int64 :=
  (vars.binding name).join

/-- The table of a list of bindings; the last one of a name counts. -/
def ofList (bindings : List Binding) : Variables :=
  bindings.foldl (fun vars b => vars.bind b.1 b.2) empty

def initialName : String :=
  "global_1"

/-- The table at the start of a game: one variable, uninitialized. -/
def fresh : Variables :=
  empty.bind initialName none

/-- The table after a value, or nothing, is written to a name.  Values are clamped. -/
def write (vars : Variables) (name : String) (held : Option Int64) : Variables :=
  vars.bind name (held.map Value.clamp)

/-- The table with a binding put back that was looked up before. -/
def restore (vars : Variables) (name : String) : Option (Option Int64) → Variables
  | some held => vars.bind name held
  | none => vars.erase name

def clamped (vars : Variables) : Variables :=
  ⟨vars.entries.map fun b => (b.1, b.2.map Value.clamp), by
    simpa [List.pairwise_map] using vars.ascending⟩

/-! ## The bindings after each operation -/

theorem find?_bindEntry (name other : String) (held : Option Int64) (entries : List Binding) :
    ((bindEntry name held entries).find? fun b => b.1 == other).map Prod.snd =
      if name = other then some held
      else (entries.find? fun b => b.1 == other).map Prod.snd := by
  induction entries with
  | nil => by_cases h : name = other <;> simp [bindEntry, h]
  | cons entry rest ih =>
    rw [bindEntry]
    split
    · by_cases h : name = other <;> simp [h]
    · split
      · next heq => by_cases h : name = other <;> simp [← heq, h]
      · next hne =>
        by_cases h : entry.1 = other
        · have hno : name ≠ other := fun hn => hne (hn.trans h.symm)
          simp [h, hno]
        · simpa [h] using ih

@[simp] theorem binding_bind (vars : Variables) (name other : String) (held : Option Int64) :
    (vars.bind name held).binding other =
      if name = other then some held else vars.binding other :=
  find?_bindEntry name other held vars.entries

@[simp] theorem binding_empty (name : String) : empty.binding name = none := rfl

theorem binding_erase (vars : Variables) (name other : String) :
    (vars.erase name).binding other = if name = other then none else vars.binding other := by
  simp only [erase, binding, List.find?_filter]
  split
  · next h =>
    subst h
    simp
  · next h =>
    congr 2
    funext b
    by_cases hb : b.1 = other
    · simp [hb, Ne.symm h]
    · simp [hb]

theorem binding_write (vars : Variables) (name other : String) (held : Option Int64) :
    (vars.write name held).binding other =
      if name = other then some (held.map Value.clamp) else vars.binding other := by
  simp [write]

theorem binding_clamped (vars : Variables) (name : String) :
    vars.clamped.binding name = (vars.binding name).map (Option.map Value.clamp) := by
  simp only [clamped, binding, List.find?_map, Option.map_map]
  rfl

/-! ## A table is determined by its bindings -/

theorem find?_eq_none_of_lt {name : String} {entries : List Binding}
    (h : ∀ b ∈ entries, name < b.1) : (entries.find? fun b => b.1 == name) = none := by
  refine List.find?_eq_none.2 fun b hb hname => ?_
  exact String.lt_irrefl name (by simpa [eq_of_beq hname] using h b hb)

theorem lt_of_find? {first : Binding} {rest other : List Binding} {second : Binding}
    (hother : ∀ b ∈ other, second.1 < b.1)
    (h : ((first :: rest).find? fun b => b.1 == first.1).map Prod.snd =
      ((second :: other).find? fun b => b.1 == first.1).map Prod.snd) : ¬ first.1 < second.1 := by
  intro hlt
  have hall : ∀ b ∈ second :: other, first.1 < b.1 := by
    intro b hb
    rcases List.mem_cons.1 hb with rfl | hb
    · exact hlt
    · exact String.lt_trans hlt (hother b hb)
  rw [find?_eq_none_of_lt hall] at h
  simp at h

theorem entries_eq_of_find? {l m : List Binding} (hl : l.Pairwise fun a b => a.1 < b.1)
    (hm : m.Pairwise fun a b => a.1 < b.1)
    (h : ∀ name, (l.find? fun b => b.1 == name).map Prod.snd =
      (m.find? fun b => b.1 == name).map Prod.snd) : l = m := by
  induction l generalizing m with
  | nil =>
    cases m with
    | nil => rfl
    | cons b m => simpa using h b.1
  | cons a l ih =>
    cases m with
    | nil => simpa using h a.1
    | cons b m =>
      obtain ⟨ha, hl⟩ := List.pairwise_cons.1 hl
      obtain ⟨hb, hm⟩ := List.pairwise_cons.1 hm
      have hname : a.1 = b.1 := by
        refine Decidable.byContradiction fun hne => ?_
        exact lt_of_find? ha (h b.1).symm (lt_of_not_lt_of_ne (lt_of_find? hb (h a.1)) hne)
      have hheld : a.2 = b.2 := by simpa [hname] using h b.1
      have htail : l = m := by
        refine ih hl hm fun name => ?_
        by_cases hn : a.1 = name
        · rw [find?_eq_none_of_lt fun c hc => hn ▸ ha c hc,
            find?_eq_none_of_lt fun c hc => hn ▸ hname ▸ hb c hc]
        · simpa [hn, hname ▸ hn] using h name
      rw [htail, Prod.ext hname hheld]

theorem ext_binding {s t : Variables} (h : ∀ name, s.binding name = t.binding name) : s = t := by
  have hentries : s.entries = t.entries := entries_eq_of_find? s.ascending t.ascending h
  cases s
  cases t
  simpa using hentries

end Variables

end LessonDeck
