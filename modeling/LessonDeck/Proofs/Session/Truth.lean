import LessonDeck.Proofs.Draw.Within
import LessonDeck.Proofs.Machine.Report
import LessonDeck.Proofs.Session.Growth
import LessonDeck.Proofs.Session.Run
/-!
# The journal tells the truth about values

Whatever an entry reports of a variable, the variable holds in the snapshot of the entry, with one
exception: a number that the teacher writes by hand is told as it was given, but clamped before it
is kept.  So all entries of a run are truthful exactly if all numbers written by hand are in range.
-/

namespace LessonDeck

open Text

theorem Variables.binding_of_mem {vars : Variables} {b : Binding} (h : b ∈ vars.entries) :
    vars.binding b.1 = some b.2 := by
  obtain ⟨entries, hascending⟩ := vars
  change (entries.find? fun c ↦ c.1 == b.1).map Prod.snd = some b.2
  induction entries with
  | nil => exact nomatch h
  | cons c entries ih =>
      obtain ⟨hfirst, hrest⟩ := List.pairwise_cons.mp hascending
      obtain rfl | hmem := List.mem_cons.mp h
      · simp
      · have hne : c.1 ≠ b.1 := fun heq ↦ String.lt_irrefl b.1 (heq ▸ hfirst b hmem)
        rw [List.find?_cons_of_neg (by simpa using hne)]
        exact ih hrest hmem

theorem Variables.inRange_iff_forall_mem {vars : Variables} :
    vars.InRange ↔ ∀ b ∈ vars.entries, ∀ v, b.2 = some v → Value.InRange v := by
  constructor
  · intro h b hb v hv
    refine h b.1 v ?_
    rw [value?, binding_of_mem hb, hv]
    rfl
  · intro h name v hv
    rw [value?, binding, Option.join_eq_some_iff, Option.map_eq_some_iff] at hv
    obtain ⟨b, hfind, hb⟩ := hv
    exact h b (List.mem_of_find?_eq_some hfind) v hb

namespace Session

/-! ## What the teacher writes by hand -/

/-- An entry for a variable that was written by hand. -/
def Overrides (clock : ℕ → Instant) (b : Binding) (e : Entry) : Prop :=
  ∃ (number : ℕ) (vars : Variables),
    e = (Signature.mk teacherActor clock).entry number (vars.write b.1 b.2) .info
      "variable set manually" (b.1 ++ " = " ++ Value.shown b.2)

section Overrides

variable {clock : ℕ → Instant} {b : Binding} {e : Entry}

theorem Overrides.action (h : Overrides clock b e) : e.action = "variable set manually" := by
  obtain ⟨number, vars, rfl⟩ := h
  rfl

theorem Overrides.reports (h : Overrides clock b e) : e.Reports b.1 b.2 := by
  obtain ⟨number, vars, rfl⟩ := h
  exact .overridden rfl rfl

theorem Overrides.eq_of_reports (h : Overrides clock b e) {name : String} {held : Option Int64}
    (hreports : e.Reports name held) : name = b.1 ∧ held = b.2 := by
  obtain ⟨number, vars, rfl⟩ := h
  have hlast : Text.last? "variable set manually" = some 'y' := rfl
  exact Entry.eq_of_reports_equals rfl (Simple.ne_compute_text hlast rfl) hreports

theorem Overrides.binding (h : Overrides clock b e) :
    e.snapshot.binding b.1 = some (b.2.map Value.clamp) := by
  obtain ⟨number, vars, rfl⟩ := h
  exact (Variables.binding_write vars b.1 b.1 b.2).trans (if_pos rfl)

theorem Overrides.truthful_iff (h : Overrides clock b e) :
    e.Truthful ↔ ∀ v, b.2 = some v → Value.InRange v := by
  constructor
  · intro htruthful v hv
    have hkept := (h.binding).symm.trans (htruthful b.1 b.2 h.reports)
    rw [hv, Option.map_some, Option.some.injEq, Option.some.injEq] at hkept
    exact hkept ▸ Value.inRange_clamp v
  · intro hrange name held hreports
    obtain ⟨rfl, rfl⟩ := h.eq_of_reports hreports
    rw [h.binding]
    cases hv : b.2 with
    | none => rfl
    | some v => rw [Option.map_some, Value.clamp_of_inRange (hrange v hv)]

theorem exists_own_of_override (clock : ℕ → Instant) (bindings : List Binding) (m : Machine) :
    ∃ own, (bindings.foldl (override clock) m).journal.toList = m.journal.toList ++ own ∧
      List.Forall₂ (Overrides clock) bindings own := by
  induction bindings generalizing m with
  | nil => exact ⟨[], (List.append_nil _).symm, .nil⟩
  | cons b bindings ih =>
      obtain ⟨own, hjournal, hown⟩ := ih (override clock m b)
      have hfirst : (override clock m b).journal.toList = m.journal.toList ++
          [(Signature.mk teacherActor clock).entry m.journal.size (m.vars.write b.1 b.2) .info
            "variable set manually" (b.1 ++ " = " ++ Value.shown b.2)] := Array.toList_push
      refine ⟨_ :: own, ?_, .cons ⟨m.journal.size, m.vars, rfl⟩ hown⟩
      rw [List.foldl_cons, hjournal, hfirst, List.append_assoc, List.singleton_append]

theorem entered_setVariables (s : Session) (clock : ℕ → Instant) (vars : Variables) :
    List.Forall₂ (Overrides clock) vars.entries (s.entered (.setVariables clock vars)) := by
  obtain ⟨own, hjournal, hown⟩ := exists_own_of_override clock vars.entries s.machine
  have hentered : s.entered (.setVariables clock vars) = own := entered_eq hjournal
  rw [hentered]
  exact hown

theorem exists_overrides_of_mem {bindings : List Binding} {own : List Entry}
    (h : List.Forall₂ (Overrides clock) bindings own) (he : e ∈ own) : ∃ b, Overrides clock b e := by
  induction h with
  | nil => exact nomatch he
  | cons hb _ ih =>
      obtain rfl | he := List.mem_cons.mp he
      · exact ⟨_, hb⟩
      · exact ih he

theorem forall_truthful_iff {bindings : List Binding} {own : List Entry}
    (h : List.Forall₂ (Overrides clock) bindings own) :
    (∀ e ∈ own, e.Truthful) ↔ ∀ b ∈ bindings, ∀ v, b.2 = some v → Value.InRange v := by
  induction h with
  | nil => simp
  | cons hb _ ih => rw [List.forall_mem_cons, List.forall_mem_cons, hb.truthful_iff, ih]

end Overrides

/-! ## The other operations -/

theorem truthful_of_spin (who : Signature) (number : ℕ) (vars : Variables) (action : String)
    (outcome : SpinOutcome) : (who.entry number vars .info action outcome.text).Truthful := by
  have hcolor : ∀ c : Color, ∃ d, Text.last? c.name = some d ∧
      (d.isDigit || d == 'l' || d == ')') = false := by
    intro c
    cases c <;> exact ⟨_, rfl, rfl⟩
  have htext : ∃ front, outcome.text = front ++ outcome.color.name := by
    cases outcome <;> exact ⟨_, rfl⟩
  obtain ⟨front, htext⟩ := htext
  obtain ⟨d, hlast, hd⟩ := hcolor outcome.color
  have hend : Text.last? outcome.text = some d := htext ▸ last?_append front hlast
  exact Entry.truthful_of_last? hend hd

theorem truthful_of_randomize (who : Signature) (number : ℕ) (vars : Variables) {v : Int64}
    (hv : Value.InRange v) :
    (who.entry number (vars.write Variables.initialName (some v)) .info "global variable randomized"
      ("global_1 = " ++ Value.text v ++ " (random 5-15)")).Truthful := by
  intro name held hreports
  obtain ⟨rfl, rfl⟩ := Entry.eq_of_reports_random rfl hreports
  have hbinding := Variables.binding_write vars Variables.initialName Variables.initialName (some v)
  rw [if_pos rfl, Option.map_some, Value.clamp_of_inRange hv] at hbinding
  exact hbinding

theorem told_randomized (v : Int64) :
    Variables.initialName ++ " = " ++ Value.text v ++ " (random " ++ Text.showNat drawLow ++ "-" ++
      Text.showNat drawHigh ++ ")" = "global_1 = " ++ Value.text v ++ " (random 5-15)" := by
  have hlow : Text.showNat drawLow = "5" := by decide +kernel
  have hhigh : Text.showNat drawHigh = "15" := by decide +kernel
  rw [hlow, hhigh, ← String.toList_inj]
  simp [Variables.initialName]

/-- A journal goes on from another one with truthful entries. -/
def GoesOn (base journal : Array Entry) : Prop :=
  ∃ own, journal.toList = base.toList ++ own ∧ ∀ e ∈ own, e.Truthful

theorem GoesOn.refl (base : Array Entry) : GoesOn base base :=
  ⟨[], (List.append_nil _).symm, fun _ he ↦ (nomatch he)⟩

theorem GoesOn.push {e : Entry} (he : e.Truthful) (base : Array Entry) :
    GoesOn base (base.push e) :=
  ⟨[e], Array.toList_push, List.forall_mem_singleton.mpr he⟩

theorem goesOn_submit (s : Session) (who : Signature) (cards : List Card) :
    GoesOn s.journal (s.submit who cards).2.journal := by
  obtain ⟨own, hjournal, hown⟩ := s.exists_own_of_submit who cards
  refine ⟨own, hjournal, fun e he ↦ ?_⟩
  obtain rfl | ⟨parsed, hparsed, ⟨flow, hchronicle⟩ | ⟨vars, fault, rfl⟩⟩ := hown
  · exact nomatch he
  · exact hchronicle.truthful (ParsedCommand.wellFormed_of_ofCards hparsed) he
  · obtain rfl := List.mem_singleton.mp he
    exact truthful_fault who _ vars parsed.command.text fault

theorem goesOn_randomize (s : Session) (time : Instant) :
    GoesOn s.journal (s.randomize time).2.journal := by
  have hdrawn := Draw.Source.nextInRange_mem drawLow drawHigh (by decide) s.tableDraws
  have hsmall : ∀ n ≤ 15, Value.InRange (Int64.ofNat n) := by decide
  have htruthful := truthful_of_randomize (.once teacherActor time) s.journal.size
    s.machine.vars (hsmall _ hdrawn.2)
  rw [← told_randomized] at htruthful
  exact .push htruthful s.journal

theorem goesOn_told (m : Machine) (who : Signature) (action : String)
    (result : Except (WheelError Float) SpinOutcome) :
    GoesOn m.journal (told m who action result).journal := by
  cases result with
  | error e => exact .refl m.journal
  | ok outcome =>
      exact .push (truthful_of_spin who m.journal.size m.vars action outcome) m.journal

theorem goesOn_spin (s : Session) (time : Instant) :
    GoesOn s.journal (s.spin time).2.journal := by
  rw [spin_eq]
  exact goesOn_told s.machine _ _ _

theorem goesOn_forceColor (s : Session) (time : Instant) (name : String) :
    GoesOn s.journal (s.forceColor time name).2.journal := by
  rw [forceColor_eq]
  exact goesOn_told s.machine _ _ _

theorem goesOn_setLevel (s : Session) (level : ℕ) :
    GoesOn s.journal (s.setLevel level).2.journal := by
  rw [journal_setLevel]
  exact .refl s.journal

theorem truthful_of_mem_entered {s : Session} {op : Operation} {e : Entry}
    (hop : ∀ clock vars, op ≠ .setVariables clock vars) (he : e ∈ s.entered op) : e.Truthful := by
  have hgoesOn : GoesOn (op.inherited s.journal) (s.perform op).2.journal := by
    cases op with
    | submit who cards => exact goesOn_submit s who cards
    | check cards => exact .refl s.journal
    | setLevel level => exact goesOn_setLevel s level
    | setVariables clock vars => exact (hop clock vars rfl).elim
    | randomize time => exact goesOn_randomize s time
    | importBundle b => exact .refl b.journal
    | spin time => exact goesOn_spin s time
    | forceColor time name => exact goesOn_forceColor s time name
    | reset => exact .refl #[]
  obtain ⟨own, hjournal, hown⟩ := hgoesOn
  exact hown e (entered_eq hjournal ▸ he)

/-! ## Runs -/

/-- What is written by hand is in range. -/
def Operation.InRange : Operation → Prop
  | setVariables _ vars => vars.InRange
  | _ => True

theorem Operation.setVariables_or (op : Operation) :
    (∃ clock vars, op = setVariables clock vars) ∨ ∀ clock vars, op ≠ setVariables clock vars := by
  cases op with
  | setVariables clock vars => exact .inl ⟨clock, vars, rfl⟩
  | _ => exact .inr fun _ _ ↦ (nomatch ·)

theorem forall_entered_truthful_iff (s : Session) (op : Operation) :
    (∀ e ∈ s.entered op, e.Truthful) ↔ op.InRange := by
  obtain ⟨clock, vars, rfl⟩ | hother := op.setVariables_or
  · rw [forall_truthful_iff (s.entered_setVariables clock vars)]
    exact Variables.inRange_iff_forall_mem.symm
  · have hrange : op.InRange := by
      cases op with
      | setVariables clock vars => exact (hother clock vars rfl).elim
      | _ => trivial
    exact ⟨fun _ ↦ hrange, fun _ e he ↦ truthful_of_mem_entered hother he⟩

/-- What an entry reports is what the variable holds, or, if it was written by hand, what the
variable holds once it is clamped. -/
theorem binding_of_reports {s : Session} {op : Operation} {e : Entry} (he : e ∈ s.entered op)
    {name : String} {held : Option Int64} (hreports : e.Reports name held) :
    e.snapshot.binding name = some held ∨ e.action = "variable set manually" ∧
      e.snapshot.binding name = some (held.map Value.clamp) := by
  obtain ⟨clock, vars, rfl⟩ | hother := op.setVariables_or
  · have hall := s.entered_setVariables clock vars
    obtain ⟨b, hb⟩ := exists_overrides_of_mem hall he
    obtain ⟨rfl, rfl⟩ := hb.eq_of_reports hreports
    exact .inr ⟨hb.action, hb.binding⟩
  · exact .inl (truthful_of_mem_entered hother he name held hreports)

theorem exists_of_mem_enteredAll {s : Session} {ops : List Operation} {e : Entry}
    (he : e ∈ s.enteredAll ops) : ∃ t op, op ∈ ops ∧ e ∈ entered t op := by
  induction ops generalizing s with
  | nil => exact nomatch he
  | cons op ops ih =>
      obtain he | he := List.mem_append.mp he
      · exact ⟨s, op, List.mem_cons_self, he⟩
      · obtain ⟨t, op', hop, he⟩ := ih he
        exact ⟨t, op', List.mem_cons_of_mem op hop, he⟩

/-- Whatever an entry of a run reports of a variable, the variable holds in its snapshot, but for
numbers written by hand, which are told before they are clamped.  So all entries of a run are
truthful exactly if all that was written by hand was in range. -/
theorem entries_truthful_iff (s : Session) (ops : List Operation) :
    (∀ e ∈ s.enteredAll ops, ∀ name held, e.Reports name held →
      e.snapshot.binding name = some held ∨ e.action = "variable set manually" ∧
        e.snapshot.binding name = some (held.map Value.clamp)) ∧
    ((∀ e ∈ s.enteredAll ops, e.Truthful) ↔ ∀ op ∈ ops, op.InRange) := by
  constructor
  · intro e he name held hreports
    obtain ⟨t, op, -, hentered⟩ := exists_of_mem_enteredAll he
    exact binding_of_reports hentered hreports
  · induction ops generalizing s with
    | nil => simp [enteredAll]
    | cons op ops ih =>
        rw [enteredAll, List.forall_mem_append, List.forall_mem_cons,
          forall_entered_truthful_iff, ih]

/-- A loop that writes to its own variable, which the teacher has set before. -/
theorem entries_truthful_iff_forLoop :
    let s : Session := ⟨4, Machine.new defaultCap, .adaptive (.ofSettings .standard), .ofSeed 7 0,
      .ofSeed 7 1⟩
    let cards : List Card := [.deal .forLoop "for i = 1 to 2", .deal .loop "do",
      .deal .assign "i =", .deal .varref "i", .deal .operator "*", .deal .number "10",
      .deal .loop "end"]
    let ops : List Operation := [.setVariables (fun _ ↦ .epoch) (Variables.empty.bind "i" (some 7)),
      .submit (.once "g1" .epoch) cards]
    (∀ op ∈ ops, op.InRange) ∧ ∃ e ∈ s.enteredAll ops, e.action = "i = i * 10" ∧
      e.result = "2 * 10 = 20" ∧ e.Reports "i" (some 20) ∧
      e.snapshot.binding "i" = some (some 20) := by
  intro s cards ops
  have hrange : ∀ op ∈ ops, op.InRange := by
    have hseven : (Variables.empty.bind "i" (some 7)).InRange := by
      refine Variables.inRange_iff_forall_mem.mpr fun b hb v hv ↦ ?_
      obtain rfl := List.mem_singleton.mp hb
      obtain rfl := Option.some.inj hv
      decide
    simpa [ops, Operation.InRange] using hseven
  obtain ⟨e, he, haction, hresult⟩ : ∃ e ∈ s.enteredAll ops, e.action = "i = i * 10" ∧
      e.result = "2 * 10 = 20" := by
    decide +kernel
  have hreports : e.Reports "i" (some 20) := by
    have hcompute : (Simple.compute "i" "i" .mul 10).text = "i = i * 10" := by decide +kernel
    have htold : "2 * 10 = 20" = "2 * 10" ++ " = " ++ Value.text 20 := by decide +kernel
    exact .computed (haction.trans hcompute.symm) (hresult.trans htold)
  exact ⟨hrange, e, he, haction, hresult, hreports,
    (entries_truthful_iff s ops).2.mpr hrange e he "i" (some 20) hreports⟩

/-- A number beyond the range, written by hand, is told as it was given, while the variable holds
the greatest one of the range. -/
theorem tells_unclamped_override :
    let s : Session := ⟨4, Machine.new defaultCap, .adaptive (.ofSettings .standard), .ofSeed 7 0,
      .ofSeed 7 1⟩
    let ops : List Operation := [.setVariables (fun _ ↦ .epoch)
      (Variables.empty.bind "x" (some 5000000000))]
    ∃ e ∈ s.enteredAll ops, e.result = "x = 5000000000" ∧ e.Reports "x" (some 5000000000) ∧
      e.snapshot.binding "x" = some (some 1000000000) ∧ ¬ e.Truthful := by
  intro s ops
  obtain ⟨e, he, haction, hresult, hheld⟩ : ∃ e ∈ s.enteredAll ops,
      e.action = "variable set manually" ∧ e.result = "x = 5000000000" ∧
        e.snapshot.binding "x" = some (some 1000000000) := by
    decide +kernel
  have hreports : e.Reports "x" (some 5000000000) := by
    have htold : "x = 5000000000" = "x" ++ " = " ++ Value.shown (some 5000000000) := by
      decide +kernel
    exact .overridden haction (hresult.trans htold)
  refine ⟨e, he, hresult, hreports, hheld, fun htruthful ↦ ?_⟩
  have hkept := htruthful "x" (some 5000000000) hreports
  rw [hheld] at hkept
  exact absurd hkept (by decide)

end Session

end LessonDeck
