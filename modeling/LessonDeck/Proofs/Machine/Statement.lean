import LessonDeck.Machine.Basic
import LessonDeck.Proofs.Variables
/-!
# Single statements

Whether a statement has a fault depends on the variables alone, and a statement with a fault does
nothing.  A statement without one either writes a value to the variable on its left or prints, and
makes one entry in the journal.
-/

namespace LessonDeck

/-- The fault that a condition has, if any. -/
def Condition.fault? (c : Condition) (vars : Variables) : Option Fault :=
  if vars.value? c.name = none then some (.uninitialized c.name) else none

namespace Simple

/-- The fault that a statement has, if any. -/
def fault? (vars : Variables) : Simple → Option Fault
  | assign _ _ => none
  | compute _ left op right =>
    if vars.value? left = none then some (.uninitialized left)
    else if op = .div ∧ right = 0 then some .divisionByZero
    else none
  | print name => if vars.value? name = none then some (.uninitialized name) else none

/-- The variable that a statement writes, if any. -/
def target? : Simple → Option String
  | assign name _ => some name
  | compute name _ _ _ => some name
  | print _ => none

/-- What a statement prints: a variable with its value, if it names one that has a value to be printed,
and nothing otherwise. -/
def toPrint (vars : Variables) : Simple → List Printed
  | print name => (vars.value? name).toList.map fun v ↦ ⟨name, v⟩
  | _ => []

/-- What a statement does that has no fault. -/
inductive Effect (who : Signature) (s : Simple) (p : Progress) : Progress → Prop
  | writes {name : String} (v : Int64) (result : String) (h : s.target? = some name) :
      Effect who s p ((p.write name v).record who .info s.text result)
  | prints {name : String} (v : Int64) (result : String) (h : s = .print name)
      (hv : p.vars.value? name = some v) :
      Effect who s p ((p.record who .info s.text result).print name v)

end Simple

theorem Variables.read_of_value? {vars : Variables} {name : String} {v : Int64}
    (h : vars.value? name = some v) : vars.read name = .ok v := by
  rw [read, h]

theorem Variables.read_of_value?_eq_none {vars : Variables} {name : String}
    (h : vars.value? name = none) : vars.read name = .error (.uninitialized name) := by
  rw [read, h]

theorem Arith.apply_eq_none_iff {op : Arith} {left right : Int64} :
    op.apply left right = none ↔ op = .div ∧ right = 0 := by
  cases op <;> simp [apply]

theorem Arith.exists_apply {op : Arith} {right : Int64} (h : op = .div → right ≠ 0)
    (left : Int64) : ∃ v, op.apply left right = some v := by
  apply Option.ne_none_iff_exists'.mp
  intro hnone
  obtain ⟨hdiv, hzero⟩ := apply_eq_none_iff.mp hnone
  exact h hdiv hzero

section Computed

variable {vars : Variables} {left : String} {op : Arith} {l right : Int64}

theorem computed_of_apply_eq_none (hl : vars.value? left = some l)
    (h : op.apply l right = none) : computed vars left op right = .error .divisionByZero := by
  rw [computed, Variables.read_of_value? hl]
  simp only [bind, Except.bind, h]

theorem computed_of_apply {v : Int64} (hl : vars.value? left = some l)
    (h : op.apply l right = some v) : computed vars left op right = .ok (l, Value.clamp v) := by
  rw [computed, Variables.read_of_value? hl]
  simp only [bind, Except.bind, h]
  rfl

end Computed

namespace Simple

theorem run_compute {left : String} {op : Arith} {l right v : Int64} {p : Progress}
    (hl : p.vars.value? left = some l) (hv : op.apply l right = some v) (who : Signature)
    (name : String) :
    let worked := Value.text l ++ " " ++ op.symbol ++ " " ++ Value.text right ++ " = " ++
      Value.text (Value.clamp v)
    (compute name left op right).run who p = .ok (name ++ " = " ++ worked,
      (p.write name (Value.clamp v)).record who .info (compute name left op right).text worked) := by
  rw [run, computed_of_apply hl hv]
  rfl

theorem run_print {name : String} {v : Int64} {p : Progress} (hv : p.vars.value? name = some v)
    (who : Signature) :
    let shown := name ++ " = " ++ Value.text v
    (print name).run who p =
      .ok (shown, (p.record who .info (print name).text shown).print name v) := by
  rw [run, Variables.read_of_value? hv]
  rfl

theorem fault?_compute {vars : Variables} {left : String} {op : Arith} {l right : Int64}
    (hl : vars.value? left = some l) (hright : op = .div → right ≠ 0) (name : String) :
    (compute name left op right).fault? vars = none := by
  have hdiv : ¬(op = .div ∧ right = 0) := fun h ↦ hright h.1 h.2
  rw [fault?, hl, if_neg (Option.some_ne_none l), if_neg hdiv]

theorem fault?_print {vars : Variables} {name : String} {v : Int64}
    (hv : vars.value? name = some v) : (print name).fault? vars = none := by
  rw [fault?, hv, if_neg (Option.some_ne_none v)]

/-- A statement with a fault does nothing but report it. -/
theorem run_of_fault (who : Signature) {s : Simple} {p : Progress} {fault : Fault}
    (h : s.fault? p.vars = some fault) : s.run who p = .error fault := by
  cases s with
  | assign name literal => cases h
  | compute name left op right =>
      rw [fault?] at h
      split at h
      · next hl =>
        rw [run, computed, Variables.read_of_value?_eq_none hl, ← Option.some.inj h]
        rfl
      · next hl =>
        obtain ⟨l, hl⟩ := Option.ne_none_iff_exists'.mp hl
        split at h
        · next hdiv =>
          have hnone : op.apply l right = none := Arith.apply_eq_none_iff.mpr hdiv
          rw [run, computed_of_apply_eq_none hl hnone, ← Option.some.inj h]
          rfl
        · cases h
  | print name =>
      rw [fault?] at h
      split at h
      · next hname =>
        rw [run, Variables.read_of_value?_eq_none hname, ← Option.some.inj h]
        rfl
      · cases h

/-- A statement without a fault has its effect. -/
theorem run_of_no_fault (who : Signature) {s : Simple} {p : Progress}
    (h : s.fault? p.vars = none) :
    ∃ summary q, s.run who p = .ok (summary, q) ∧ s.Effect who p q := by
  cases s with
  | assign name literal => exact ⟨_, _, rfl, .writes _ _ rfl⟩
  | compute name left op right =>
      rw [fault?] at h
      split at h
      · exact nomatch h
      · next hl =>
        obtain ⟨l, hl⟩ := Option.ne_none_iff_exists'.mp hl
        split at h
        · exact nomatch h
        · next hdiv =>
          obtain ⟨v, hv⟩ := Arith.exists_apply (not_and.mp hdiv) l
          exact ⟨_, _, run_compute hl hv who name, .writes (Value.clamp v) _ rfl⟩
  | print name =>
      rw [fault?] at h
      split at h
      · exact nomatch h
      · next hname =>
        obtain ⟨v, hv⟩ := Option.ne_none_iff_exists'.mp hname
        exact ⟨_, _, run_print hv who, .prints v _ rfl hv⟩

/-- What a statement that ran to its end did. -/
theorem effect_of_run {who : Signature} {s : Simple} {p q : Progress} {summary : String}
    (h : s.run who p = .ok (summary, q)) : s.fault? p.vars = none ∧ s.Effect who p q := by
  cases hfault : s.fault? p.vars with
  | some fault => exact nomatch (run_of_fault who hfault).symm.trans h
  | none =>
      obtain ⟨summary', q', hrun, heffect⟩ := run_of_no_fault who hfault
      have heq : (summary', q') = (summary, q) := Except.ok.inj (hrun.symm.trans h)
      rw [Prod.mk.injEq] at heq
      exact ⟨rfl, heq.2 ▸ heffect⟩

/-! ## What is printed -/

theorem toPrint_of_fault {s : Simple} {vars : Variables} {fault : Fault}
    (h : s.fault? vars = some fault) : s.toPrint vars = [] := by
  cases s with
  | assign name literal => rfl
  | compute name left op right => rfl
  | print name =>
      rw [fault?] at h
      split at h
      · next hname =>
        rw [toPrint, hname]
        rfl
      · cases h

theorem Effect.printed {who : Signature} {s : Simple} {p q : Progress} (h : s.Effect who p q) :
    q.printed.toList = p.printed.toList ++ s.toPrint p.vars := by
  cases h with
  | writes v result htarget =>
      cases s with
      | print name => cases htarget
      | _ => exact (List.append_nil _).symm
  | prints v result hs hv =>
      rw [hs, toPrint, hv]
      exact Array.toList_push

/-! ## Initialized variables stay initialized -/

theorem Effect.initialized {who : Signature} {s : Simple} {p q : Progress}
    (h : s.Effect who p q) {name : String} (hname : p.vars.Initialized name) :
    q.vars.Initialized name := by
  cases h with
  | writes v result htarget => exact hname.write _ v
  | prints v result hs hv => exact hname

/-- More initialized variables make no new fault. -/
theorem fault?_eq_none_of_initialized {s : Simple} {vars vars' : Variables}
    (hmore : ∀ name, vars.Initialized name → vars'.Initialized name)
    (h : s.fault? vars = none) : s.fault? vars' = none := by
  have hne : ∀ name, vars.value? name ≠ none → vars'.value? name ≠ none := by
    intro name hname
    exact Option.isSome_iff_ne_none.mp (hmore name (Option.isSome_iff_ne_none.mpr hname))
  cases s with
  | assign name literal => rfl
  | compute name left op right =>
      rw [fault?] at h ⊢
      split at h
      · exact nomatch h
      · next hl =>
        rw [if_neg (hne left hl)]
        exact h
  | print name =>
      rw [fault?] at h ⊢
      split at h
      · exact nomatch h
      · next hname => exact if_neg (hne name hname)

end Simple

namespace Condition

theorem holds_of_fault {c : Condition} {vars : Variables} {fault : Fault}
    (h : c.fault? vars = some fault) : c.holds vars = .error fault := by
  rw [fault?] at h
  split at h
  · next hname =>
    rw [holds, Variables.read_of_value?_eq_none hname, ← Option.some.inj h]
    rfl
  · exact nomatch h

theorem holds_of_no_fault {c : Condition} {vars : Variables} (h : c.fault? vars = none) :
    ∃ b, c.holds vars = .ok b := by
  rw [fault?] at h
  split at h
  · exact nomatch h
  · next hname =>
    obtain ⟨v, hv⟩ := Option.ne_none_iff_exists'.mp hname
    refine ⟨c.op.holds v c.literal, ?_⟩
    rw [holds, Variables.read_of_value? hv]
    rfl

theorem fault?_eq_none_of_initialized {c : Condition} {vars vars' : Variables}
    (hmore : ∀ name, vars.Initialized name → vars'.Initialized name)
    (h : c.fault? vars = none) : c.fault? vars' = none := by
  rw [fault?] at h ⊢
  split at h
  · exact nomatch h
  · next hname =>
    refine if_neg (Option.isSome_iff_ne_none.mp (hmore c.name ?_))
    exact Option.isSome_iff_ne_none.mpr hname

end Condition

end LessonDeck
