import Mathlib
import LessonDeck.Variables
/-!
# More about the variables

Putting back a binding that was looked up before undoes any write to its name.  A table can be laid
over another one, and then its own bindings count.  Initialized variables are those that hold a
value; a write never takes a value away.
-/

namespace LessonDeck

namespace Variables

theorem binding_restore (vars : Variables) (name other : String) (prior : Option (Option Int64)) :
    (vars.restore name prior).binding other =
      if name = other then prior else vars.binding other := by
  cases prior with
  | none => exact binding_erase vars name other
  | some held => exact binding_bind vars name other held

theorem restore_write (vars : Variables) (name : String) (held : Option Int64) :
    (vars.write name held).restore name (vars.binding name) = vars := by
  refine ext_binding fun other ↦ ?_
  rw [binding_restore]
  split
  · next h => rw [h]
  · next h => rw [binding_write, if_neg h]

/-! ## Initialized variables -/

/-- Whether a name holds a value. -/
def Initialized (vars : Variables) (name : String) : Prop :=
  (vars.value? name).isSome = true

theorem value?_write (vars : Variables) (name other : String) (v : Int64) :
    (vars.write name (some v)).value? other =
      if name = other then some (Value.clamp v) else vars.value? other := by
  rw [value?, binding_write]
  split <;> rfl

theorem Initialized.write {vars : Variables} {name : String} (h : vars.Initialized name)
    (other : String) (v : Int64) : (vars.write other (some v)).Initialized name := by
  rw [Initialized, value?_write]
  split
  · rfl
  · exact h

theorem Initialized.restore {vars : Variables} {name other : String} (h : vars.Initialized name)
    (hne : other ≠ name) (prior : Option (Option Int64)) :
    (vars.restore other prior).Initialized name := by
  rw [Initialized, value?, binding_restore, if_neg hne]
  exact h

theorem initialized_write (vars : Variables) (name : String) (v : Int64) :
    (vars.write name (some v)).Initialized name := by
  rw [Initialized, value?_write, if_pos rfl]
  rfl

theorem binding_of_initialized {vars : Variables} {name : String} (h : vars.Initialized name) :
    vars.binding name = some (vars.value? name) := by
  rw [Initialized, value?] at h
  rw [value?]
  cases hbinding : vars.binding name with
  | none => simp [hbinding] at h
  | some held => rfl

/-! ## Tables from lists, and one table over another -/

theorem binding_foldl_bind (bindings : List Binding)
    (h : bindings.Pairwise fun a b ↦ a.1 < b.1) (base : Variables) (name : String) :
    (bindings.foldl (fun vars b ↦ vars.bind b.1 b.2) base).binding name =
      ((bindings.find? fun b ↦ b.1 == name).map Prod.snd).or (base.binding name) := by
  induction bindings generalizing base with
  | nil => rfl
  | cons b bindings ih =>
      obtain ⟨hfirst, hrest⟩ := List.pairwise_cons.mp h
      rw [List.foldl_cons, ih hrest, binding_bind]
      by_cases hb : b.1 = name
      · subst name
        rw [find?_eq_none_of_lt hfirst, if_pos rfl, List.find?_cons_of_pos (by simp)]
        rfl
      · rw [if_neg hb, List.find?_cons_of_neg (by simpa using hb)]

/-- A table with the bindings of another one laid over it. -/
def overlay (base top : Variables) : Variables :=
  top.entries.foldl (fun vars b ↦ vars.bind b.1 b.2) base

theorem binding_overlay (base top : Variables) (name : String) :
    (base.overlay top).binding name = (top.binding name).or (base.binding name) :=
  binding_foldl_bind top.entries top.ascending base name

/-- The table of what a function gives for some names binds exactly those. -/
theorem binding_ofList_map (f : String → Option Int64) (names : List String) (name : String) :
    (ofList (names.map fun n ↦ (n, f n))).binding name =
      if name ∈ names then some (f name) else none := by
  have hfold : ∀ base : Variables,
      ((names.map fun n ↦ (n, f n)).foldl (fun vars b ↦ vars.bind b.1 b.2) base).binding name =
        if name ∈ names then some (f name) else base.binding name := by
    induction names with
    | nil => simp
    | cons n names ih =>
        intro base
        rw [List.map_cons, List.foldl_cons, ih]
        by_cases hn : n = name
        · simp [hn]
        · simp [hn, Ne.symm hn]
  exact hfold empty

end Variables

end LessonDeck
