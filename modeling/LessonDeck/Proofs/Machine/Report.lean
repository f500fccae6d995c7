import LessonDeck.Proofs.Machine.Chronicle
import LessonDeck.Proofs.Text.Ending
/-!
# What entries report

An entry reports the value of a variable if its texts have one of five forms.  No text has two of
them with different values: they part at their last blanks, the numbers at their ends can be read
back, and where two forms end alike, the action tells them apart.  So it is determined what an
entry reports, and a statement makes no entry that reports anything but what its variable then
holds.
-/

namespace LessonDeck

open Text

namespace Entry

/-- The texts of an entry report what a variable holds, or that it holds nothing. -/
inductive Reports (e : Entry) : String → Option Int64 → Prop
  | assigned {name : String} {v : Int64} (h : e.result = name ++ " → " ++ Value.text v) :
      Reports e name (some v)
  | computed {name left worked : String} {op : Arith} {right v : Int64}
      (haction : e.action = (Simple.compute name left op right).text)
      (h : e.result = worked ++ " = " ++ Value.text v) : Reports e name (some v)
  | printed {name : String} {v : Int64} (haction : e.action = (Simple.print name).text)
      (h : e.result = name ++ " = " ++ Value.text v) : Reports e name (some v)
  | overridden {name : String} {held : Option Int64}
      (haction : e.action = "variable set manually")
      (h : e.result = name ++ " = " ++ Value.shown held) : Reports e name held
  | randomized {v : Int64} (haction : e.action = "global variable randomized")
      (h : e.result = "global_1 = " ++ Value.text v ++ " (random 5-15)") :
      Reports e "global_1" (some v)

/-- Whatever the entry reports of a variable, the variable holds in the snapshot. -/
def Truthful (e : Entry) : Prop :=
  ∀ name held, e.Reports name held → e.snapshot.binding name = some held

variable {e : Entry} {name told : String} {held : Option Int64} {v : Int64}

/-! ## The ends of the five forms -/

theorem endsIn_arrow (h : e.result = name ++ " → " ++ Value.text v) :
    EndsIn e.result name "→" (Value.text v) := by
  refine ⟨?_, by decide, Value.blank_notMem_text v⟩
  rw [h, ← String.toList_inj]
  simp

theorem endsIn_equals {text word : String} (hword : ' ' ∉ word.toList)
    (h : text = name ++ " = " ++ word) : EndsIn text name "=" word := by
  refine ⟨?_, by decide, hword⟩
  rw [h, ← String.toList_inj]
  simp

theorem endsIn_random (h : e.result = "global_1 = " ++ Value.text v ++ " (random 5-15)") :
    EndsIn e.result ("global_1 = " ++ Value.text v) "(random" "5-15)" := by
  refine ⟨?_, by decide, by decide⟩
  rw [h, ← String.toList_inj]
  simp

/-- A report ends in a digit, or as `null` or the range of a random number do. -/
theorem Reports.last? (h : e.Reports name held) :
    ∃ c, Text.last? e.result = some c ∧ (c.isDigit = true ∨ c = 'l' ∨ c = ')') := by
  have hnumber : ∀ front v, e.result = front ++ Value.text v →
      ∃ c, Text.last? e.result = some c ∧ (c.isDigit = true ∨ c = 'l' ∨ c = ')') := by
    intro front v hresult
    obtain ⟨c, hlast, hdigit⟩ := Value.last?_text v
    exact ⟨c, hresult ▸ last?_append front hlast, .inl hdigit⟩
  cases h with
  | assigned hresult => exact hnumber _ _ hresult
  | computed haction hresult => exact hnumber _ _ hresult
  | printed haction hresult => exact hnumber _ _ hresult
  | overridden haction hresult =>
      cases held with
      | none => exact ⟨'l', hresult ▸ last?_append _ rfl, .inr (.inl rfl)⟩
      | some v => exact hnumber _ _ hresult
  | randomized haction hresult => exact ⟨')', hresult ▸ last?_append _ rfl, .inr (.inr rfl)⟩

theorem truthful_of_last? {c : Char} (h : Text.last? e.result = some c)
    (hc : (c.isDigit || c == 'l' || c == ')') = false) : e.Truthful := by
  intro name held hreports
  obtain ⟨d, hlast, hd⟩ := hreports.last?
  obtain rfl := Option.some.inj (h.symm.trans hlast)
  simp only [Bool.or_eq_false_iff, beq_eq_false_iff_ne] at hc
  obtain ⟨⟨hdigit, hl⟩, hparen⟩ := hc
  rcases hd with hd | hd | hd
  · exact absurd hd (by simp [hdigit])
  · exact absurd hd hl
  · exact absurd hd hparen

/-! ## What each form reports -/

theorem eq_of_reports_arrow (hresult : e.result = name ++ " → " ++ Value.text v) {other : String}
    (h : e.Reports other held) : other = name ∧ held = some v := by
  have hends := endsIn_arrow hresult
  cases h with
  | assigned h =>
      obtain ⟨hname, -, hv⟩ := (endsIn_arrow h).unique hends
      exact ⟨hname, congrArg some (Value.text_injective hv)⟩
  | computed haction h =>
      exact absurd ((endsIn_equals (Value.blank_notMem_text _) h).unique hends).2.1 (by decide)
  | printed haction h =>
      exact absurd ((endsIn_equals (Value.blank_notMem_text _) h).unique hends).2.1 (by decide)
  | overridden haction h =>
      exact absurd ((endsIn_equals (Value.blank_notMem_shown _) h).unique hends).2.1 (by decide)
  | randomized haction h => exact absurd ((endsIn_random h).unique hends).2.1 (by decide)

theorem eq_of_reports_random
    (hresult : e.result = "global_1 = " ++ Value.text v ++ " (random 5-15)") {other : String}
    (h : e.Reports other held) : other = "global_1" ∧ held = some v := by
  have hends := endsIn_random hresult
  cases h with
  | assigned h => exact absurd ((endsIn_arrow h).unique hends).2.1 (by decide)
  | computed haction h =>
      exact absurd ((endsIn_equals (Value.blank_notMem_text _) h).unique hends).2.1 (by decide)
  | printed haction h =>
      exact absurd ((endsIn_equals (Value.blank_notMem_text _) h).unique hends).2.1 (by decide)
  | overridden haction h =>
      exact absurd ((endsIn_equals (Value.blank_notMem_shown _) h).unique hends).2.1 (by decide)
  | randomized haction h =>
      have hfront := ((endsIn_random h).unique hends).1
      have htext := (String.append_right_inj "global_1 = ").mp hfront
      exact ⟨rfl, congrArg some (Value.text_injective htext)⟩

/-- The entry of a computation ends like that of a print, and may tell of another variable than the
one before the equals sign.  What the action is decides. -/
theorem eq_of_reports_equals (hresult : e.result = name ++ " = " ++ Value.shown held)
    (haction : ∀ target left op right, e.action ≠ (Simple.compute target left op right).text)
    {other : String} {held' : Option Int64} (h : e.Reports other held') :
    other = name ∧ held' = held := by
  have hends := endsIn_equals (Value.blank_notMem_shown held) hresult
  cases h with
  | assigned h => exact absurd ((endsIn_arrow h).unique hends).2.1 (by decide)
  | computed h _ => exact (haction _ _ _ _ h).elim
  | printed _ h =>
      obtain ⟨hname, -, hv⟩ := (endsIn_equals (Value.blank_notMem_text _) h).unique hends
      exact ⟨hname, Value.shown_injective hv⟩
  | overridden _ h =>
      obtain ⟨hname, -, hv⟩ := (endsIn_equals (Value.blank_notMem_shown _) h).unique hends
      exact ⟨hname, Value.shown_injective hv⟩
  | randomized _ h => exact absurd ((endsIn_random h).unique hends).2.1 (by decide)

end Entry

/-! ## Actions -/

theorem Simple.last?_compute_text (name left : String) (op : Arith) (right : Int64) :
    ∃ c, Text.last? (compute name left op right).text = some c ∧ c.isDigit = true := by
  obtain ⟨c, hlast, hdigit⟩ := Value.last?_text right
  exact ⟨c, last?_append _ hlast, hdigit⟩

theorem Simple.ne_compute_text {action : String} {c : Char} (h : Text.last? action = some c)
    (hc : c.isDigit = false) (name left : String) (op : Arith) (right : Int64) :
    action ≠ (compute name left op right).text := by
  rintro rfl
  obtain ⟨d, hlast, hdigit⟩ := last?_compute_text name left op right
  obtain rfl := Option.some.inj (h.symm.trans hlast)
  exact Bool.false_ne_true (hc.symm.trans hdigit)

/-- The text of a computation tells which variable it writes, if its names have no blanks. -/
theorem Simple.target_eq_of_compute_text {name left name' left' : String} {op op' : Arith}
    {right right' : Int64} (hname : ' ' ∉ name.toList) (hleft : ' ' ∉ left.toList)
    (h : (compute name' left' op' right').text = (compute name left op right).text) :
    name' = name := by
  have hsymbol : ∀ op : Arith, ' ' ∉ op.symbol.toList := by
    intro op
    cases op <;> decide
  have hends : ∀ name left op right, EndsIn (compute name left op right).text
      (name ++ " = " ++ left) op.symbol (Value.text right) := fun name left op right ↦
    ⟨rfl, hsymbol op, Value.blank_notMem_text right⟩
  have hfront := ((hends name' left' op' right').unique (h ▸ hends name left op right)).1
  -- There are two blanks around the equals sign, so there is none in the other names.
  have hcount : (name' ++ " = " ++ left').toList.count ' ' = 2 := by
    rw [hfront]
    simp [List.count_eq_zero.mpr hname, List.count_eq_zero.mpr hleft]
  have hleft' : ' ' ∉ left'.toList := by
    rw [← List.count_eq_zero]
    simp only [String.toList_append, List.count_append] at hcount
    have hequals : List.count ' ' " = ".toList = 2 := by decide
    omega
  exact ((Entry.endsIn_equals hleft' rfl).unique (Entry.endsIn_equals hleft hfront)).1

/-! ## Statements -/

theorem Entry.eq_of_reports_computed {e : Entry} {name left worked other : String} {op : Arith}
    {right v : Int64} {held : Option Int64} (hname : ' ' ∉ name.toList) (hleft : ' ' ∉ left.toList)
    (haction : e.action = (Simple.compute name left op right).text)
    (hresult : e.result = worked ++ " = " ++ Value.text v) (h : e.Reports other held) :
    other = name ∧ held = some v := by
  have hends := endsIn_equals (Value.blank_notMem_text v) hresult
  cases h with
  | assigned h => exact absurd ((endsIn_arrow h).unique hends).2.1 (by decide)
  | computed haction' h =>
      have hv := ((endsIn_equals (Value.blank_notMem_text _) h).unique hends).2.2
      have hother := Simple.target_eq_of_compute_text hname hleft (haction'.symm.trans haction)
      exact ⟨hother, congrArg some (Value.text_injective hv)⟩
  | printed haction' _ =>
      have hlast : Text.last? (Simple.print other).text = some ')' := last?_append _ rfl
      exact absurd (haction'.symm.trans haction) (Simple.ne_compute_text hlast rfl _ _ _ _)
  | overridden haction' _ =>
      have hlast : Text.last? "variable set manually" = some 'y' := rfl
      exact absurd (haction'.symm.trans haction) (Simple.ne_compute_text hlast rfl _ _ _ _)
  | randomized _ h => exact absurd ((endsIn_random h).unique hends).2.1 (by decide)

theorem Variables.binding_write_clamp (vars : Variables) (name : String) (v : Int64) :
    (vars.write name (some (Value.clamp v))).binding name = some (some (Value.clamp v)) := by
  rw [binding_write, if_pos rfl, Option.map_some, Value.clamp_of_inRange (Value.inRange_clamp v)]

theorem IsVariable.blank_notMem {name : String} (h : IsVariable name) : ' ' ∉ name.toList :=
  notMem_of_solid (solid_of_isName h)

theorem Simple.Entered.truthful {who : Signature} {number : ℕ} {s : Simple} {e : Entry}
    (h : s.Entered who number e) (hwell : s.WellFormed) : e.Truthful := by
  intro other held hreports
  cases h with
  | assign vars name literal =>
      obtain ⟨rfl, rfl⟩ := Entry.eq_of_reports_arrow rfl hreports
      exact vars.binding_write_clamp other literal
  | @compute vars left op l right v name hl hv =>
      obtain ⟨rfl, rfl⟩ := Entry.eq_of_reports_computed hwell.1.blank_notMem
        hwell.2.1.blank_notMem rfl rfl hreports
      exact vars.binding_write_clamp other v
  | @print vars name v hv =>
      have hlast : Text.last? (Simple.print name).text = some ')' := last?_append _ rfl
      have hresult : name ++ " = " ++ Value.text v = name ++ " = " ++ Value.shown (some v) := rfl
      obtain ⟨rfl, rfl⟩ := Entry.eq_of_reports_equals hresult
        (Simple.ne_compute_text hlast rfl) hreports
      have hbinding := Variables.binding_of_initialized (Option.isSome_of_eq_some hv)
      rw [hv] at hbinding
      exact hbinding

/-! ## Commands -/

namespace Command

theorem wellFormed_of_mem_statements {command : Command} (h : command.WellFormed) {s : Simple}
    (hs : s ∈ command.statements) : s.WellFormed := by
  cases command with
  | simple t =>
      obtain rfl := List.mem_singleton.mp hs
      exact h
  | branch c onTrue onFalse =>
      cases onFalse with
      | none =>
          obtain rfl := List.mem_singleton.mp hs
          exact h.2
      | some onFalse =>
          obtain rfl | hs := List.mem_cons.mp hs
          · exact h.2.1
          · obtain rfl := List.mem_singleton.mp hs
            exact h.2.2
  | whileLoop c body =>
      obtain rfl := List.mem_singleton.mp hs
      exact h.2
  | forLoop count body =>
      obtain rfl := List.mem_singleton.mp hs
      exact h.2

theorem Chronicle.truthful {who : Signature} {cap first : ℕ} {before : Variables}
    {command : Command} {flow : Flow} {own : List Entry}
    (h : command.Chronicle who cap first before flow own) (hwell : command.WellFormed) {e : Entry}
    (he : e ∈ own) : e.Truthful := by
  obtain ⟨s, hs, number, hentered⟩ |
    ⟨number, vars, kind, action, told, rfl, ⟨met, rfl⟩ | ⟨front, n, rfl⟩⟩ := h.mem_cases he
  · exact hentered.truthful (wellFormed_of_mem_statements hwell hs)
  · have hlast : Text.last? (verdict met) = some 't' := by cases met <;> rfl
    exact Entry.truthful_of_last? hlast rfl
  · have hcount : Text.last? (iterationsText n) = some 's' := last?_append _ rfl
    exact Entry.truthful_of_last? (last?_append front hcount) rfl

end Command

/-- The entry of a fault reports no value. -/
theorem truthful_fault (who : Signature) (number : ℕ) (vars : Variables) (action : String)
    (fault : Fault) : (who.entry number vars .error action ("Error: " ++ fault.message)).Truthful := by
  cases fault with
  | uninitialized name =>
      have hlast : Text.last? (Fault.uninitialized name).message = some 'd' := last?_append _ rfl
      exact Entry.truthful_of_last? (last?_append "Error: " hlast) rfl
  | divisionByZero => exact Entry.truthful_of_last? (last?_append "Error: " rfl) rfl

end LessonDeck
