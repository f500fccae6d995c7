import LessonDeck.Proofs.Command.WellFormed
import LessonDeck.Proofs.Machine.Fault
/-!
# What a command enters in the journal

A statement makes one entry, after its write.  A branch is entered behind the statement that was
chosen, and a loop behind those of its iterations; a loop that was stopped at the cap is followed
by a warning.  A fault has an entry of its own, and there is none besides.  The entries are numbered
on from those that the journal held before, and each has the time that the clock shows for it.
-/

namespace LessonDeck

/-! ## Statements -/

/-- The entry of a statement, by its number and the variables that the statement finds. -/
inductive Simple.Entered (who : Signature) (number : ℕ) : Simple → Entry → Prop
  | assign (vars : Variables) (name : String) (literal : Int64) :
      Entered who number (assign name literal)
        (who.entry number (vars.write name (some (Value.clamp literal))) .info
          (assign name literal).text (name ++ " → " ++ Value.text (Value.clamp literal)))
  | compute {vars : Variables} {left : String} {op : Arith} {l right v : Int64} (name : String)
      (hl : vars.value? left = some l) (hv : op.apply l right = some v) :
      Entered who number (compute name left op right)
        (who.entry number (vars.write name (some (Value.clamp v))) .info
          (compute name left op right).text
          (Value.text l ++ " " ++ op.symbol ++ " " ++ Value.text right ++ " = " ++
            Value.text (Value.clamp v)))
  | print {vars : Variables} {name : String} {v : Int64} (hv : vars.value? name = some v) :
      Entered who number (print name)
        (who.entry number vars .info (print name).text (name ++ " = " ++ Value.text v))

/-- The entries of a statement that was run again and again, numbered from the first one on. -/
inductive Simple.EnteredFrom (who : Signature) (s : Simple) : ℕ → List Entry → Prop
  | nil {number : ℕ} : EnteredFrom who s number []
  | cons {number : ℕ} {e : Entry} {ran : List Entry} (he : s.Entered who number e)
      (h : EnteredFrom who s (number + 1) ran) : EnteredFrom who s number (e :: ran)

theorem Simple.EnteredFrom.exists_entered {who : Signature} {s : Simple} {first : ℕ}
    {ran : List Entry} (h : s.EnteredFrom who first ran) {e : Entry} (he : e ∈ ran) :
    ∃ number, s.Entered who number e := by
  induction h with
  | nil => exact nomatch he
  | cons hfirst _ ih =>
      obtain rfl | he := List.mem_cons.mp he
      · exact ⟨_, hfirst⟩
      · exact ih he

theorem Variables.value?_of_read {vars : Variables} {name : String} {v : Int64}
    (h : vars.read name = .ok v) : vars.value? name = some v := by
  cases hv : vars.value? name with
  | none => cases h.symm.trans (read_of_value?_eq_none hv)
  | some w => rw [Except.ok.inj (h.symm.trans (read_of_value? hv))]

theorem exists_of_computed {vars : Variables} {left : String} {op : Arith} {right l w : Int64}
    (h : computed vars left op right = .ok (l, w)) :
    ∃ v, vars.value? left = some l ∧ op.apply l right = some v ∧ Value.clamp v = w := by
  obtain ⟨l', hread, hrest⟩ := exists_of_bind_eq_ok h
  have hl := Variables.value?_of_read hread
  split at hrest
  · next v hv =>
    obtain ⟨rfl, rfl⟩ := Prod.mk.inj (Except.ok.inj hrest)
    exact ⟨v, hl, hv, rfl⟩
  · exact nomatch hrest

theorem Simple.entered_of_run {who : Signature} {s : Simple} {p q : Progress} {summary : String}
    (h : s.run who p = .ok (summary, q)) :
    ∃ e, s.Entered who p.journal.size e ∧ q.journal.toList = p.journal.toList ++ [e] := by
  cases s with
  | assign name literal =>
      obtain ⟨-, rfl⟩ := Prod.mk.inj (Except.ok.inj h)
      exact ⟨_, .assign p.vars name literal, Array.toList_push⟩
  | compute name left op right =>
      obtain ⟨⟨l, w⟩, hcomputed, hrest⟩ := exists_of_bind_eq_ok h
      obtain ⟨v, hl, hv, rfl⟩ := exists_of_computed hcomputed
      obtain ⟨-, rfl⟩ := Prod.mk.inj (Except.ok.inj hrest)
      exact ⟨_, .compute name hl hv, Array.toList_push⟩
  | print name =>
      obtain ⟨v, hread, hrest⟩ := exists_of_bind_eq_ok h
      obtain ⟨-, rfl⟩ := Prod.mk.inj (Except.ok.inj hrest)
      exact ⟨_, .print (Variables.value?_of_read hread), Array.toList_push⟩

theorem size_of_toList_eq_append {base more : Array Entry} {own : List Entry}
    (h : more.toList = base.toList ++ own) : more.size = base.size + own.length := by
  rw [← Array.length_toList, h, List.length_append, Array.length_toList]

/-- One more entry, numbered on from those that have been made so far. -/
theorem Progress.toList_record {p : Progress} {base : Array Entry} {own : List Entry}
    (h : p.journal.toList = base.toList ++ own) (who : Signature) (kind : EntryKind)
    (action result : String) :
    (p.record who kind action result).journal.toList = base.toList ++
      (own ++ [who.entry (base.size + own.length) p.vars kind action result]) := by
  rw [← size_of_toList_eq_append h, ← List.append_assoc, ← h]
  exact Array.toList_push

/-! ## Loops -/

section Loops

variable {who : Signature} {c : Condition} {body : Simple} {left : ℕ} {p : Progress}

theorem exists_entries_of_runWhile {done : ℕ} {maxReached : Bool}
    (h : (runWhile who c body left done p).ending = .ok maxReached) :
    ∃ ran : List Entry,
      (runWhile who c body left done p).progress.journal.toList = p.journal.toList ++ ran ∧
      body.EnteredFrom who p.journal.size ran ∧
      (runWhile who c body left done p).iterations = done + ran.length ∧
      ran.length ≤ left ∧ (maxReached = true → ran.length = left) := by
  induction left generalizing done p with
  | zero =>
      cases hc : c.holds p.vars with
      | error fault =>
          rw [runWhile_of_error hc] at h
          exact nomatch h
      | ok b =>
          cases b with
          | false =>
              rw [runWhile_of_false hc]
              exact ⟨[], (List.append_nil _).symm, .nil, rfl, le_rfl, fun _ ↦ rfl⟩
          | true =>
              rw [runWhile_zero hc]
              exact ⟨[], (List.append_nil _).symm, .nil, rfl, le_rfl, fun _ ↦ rfl⟩
  | succ left ih =>
      cases hc : c.holds p.vars with
      | error fault =>
          rw [runWhile_of_error hc] at h
          exact nomatch h
      | ok b =>
          cases b with
          | false =>
              rw [runWhile_of_false hc] at h ⊢
              obtain rfl := Except.ok.inj h
              exact ⟨[], (List.append_nil _).symm, .nil, rfl, Nat.zero_le _, nofun⟩
          | true =>
              cases hrun : body.run who p with
              | error fault =>
                  rw [runWhile_succ_of_error hc hrun] at h
                  exact nomatch h
              | ok result =>
                  obtain ⟨summary, q⟩ := result
                  rw [runWhile_succ_of_ok hc hrun] at h ⊢
                  obtain ⟨e, he, hq⟩ := Simple.entered_of_run hrun
                  obtain ⟨ran, hjournal, hran, hcount, hle, hcap⟩ := ih h
                  rw [size_of_toList_eq_append hq, List.length_singleton] at hran
                  refine ⟨e :: ran, ?_, .cons he hran, ?_, ?_, ?_⟩
                  · rw [hjournal, hq, List.append_assoc, List.singleton_append]
                  · rw [hcount, List.length_cons]
                    omega
                  · rw [List.length_cons]
                    omega
                  · intro hmax
                    rw [List.length_cons, hcap hmax]

theorem exists_entries_of_runFor {i : ℕ} (h : (runFor who body left i p).2 = .ok ()) :
    ∃ ran : List Entry,
      (runFor who body left i p).1.journal.toList = p.journal.toList ++ ran ∧
      body.EnteredFrom who p.journal.size ran ∧ ran.length = left := by
  induction left generalizing i p with
  | zero => exact ⟨[], (List.append_nil _).symm, .nil, rfl⟩
  | succ left ih =>
      cases hrun : body.run who (p.count i) with
      | error fault =>
          rw [runFor_succ_of_error hrun] at h
          exact nomatch h
      | ok result =>
          obtain ⟨summary, q⟩ := result
          rw [runFor_succ_of_ok hrun] at h ⊢
          obtain ⟨e, he, hq⟩ := Simple.entered_of_run hrun
          obtain ⟨ran, hjournal, hran, hcount⟩ := ih h
          have hold : (p.count i).journal = p.journal := rfl
          rw [size_of_toList_eq_append hq, List.length_singleton, hold] at hran
          refine ⟨e :: ran, ?_, .cons he hran, ?_⟩
          · rw [hjournal, hq, hold, List.append_assoc, List.singleton_append]
          · rw [List.length_cons, hcount]

end Loops

/-! ## Commands -/

/-- How the journal tells whether a condition was met. -/
def verdict (met : Bool) : String :=
  if met then "condition met" else "condition not met"

/-- The entries of a command that runs to its end, by the way control went: those of the statements
that ran, in order, and then one for the control structure, and a warning if it was stopped.  The
first of them comes behind so many others. -/
inductive Command.Chronicle (who : Signature) (cap first : ℕ) (before : Variables) :
    Command → Flow → List Entry → Prop
  | simple {s : Simple} {e : Entry} (h : s.Entered who first e) :
      Chronicle who cap first before (simple s) .statement [e]
  | branch {c : Condition} {onTrue : Simple} {onFalse : Option Simple} {met : Bool}
      {ran : Option Entry} (vars : Variables) (hmet : c.holds before = .ok met)
      (hran : Option.Rel (Simple.Entered who first) (chosen met onTrue onFalse) ran) :
      Chronicle who cap first before (branch c onTrue onFalse)
        (.branch met (chosen met onTrue onFalse).isSome)
        (ran.toList ++ [who.entry (first + ran.toList.length) vars .info
          ("if " ++ c.text ++ " then ...") (verdict met)])
  | whileLoop {c : Condition} {body : Simple} {ran : List Entry} (vars : Variables)
      (hcap : ran.length ≤ cap) (hran : body.EnteredFrom who first ran) :
      Chronicle who cap first before (whileLoop c body) (.loop ran.length false)
        (ran ++ [who.entry (first + ran.length) vars .info ("while " ++ c.text ++ " do ...")
          (iterationsText ran.length)])
  | stoppedLoop {c : Condition} {body : Simple} {ran : List Entry} (vars : Variables)
      (hcap : ran.length = cap) (hran : body.EnteredFrom who first ran) :
      Chronicle who cap first before (whileLoop c body) (.loop ran.length true)
        (ran ++ [who.entry (first + ran.length) vars .info ("while " ++ c.text ++ " do ...")
          (iterationsText ran.length),
          who.entry (first + ran.length + 1) vars .warning "WARNING"
            ("while loop stopped after " ++ iterationsText cap)])
  | forLoop {count : UInt32} {body : Simple} {ran : List Entry} (vars : Variables)
      (hcount : ran.length = count.toNat) (hran : body.EnteredFrom who first ran) :
      Chronicle who cap first before (forLoop count body) (.loop count.toNat false)
        (ran ++ [who.entry (first + ran.length) vars .info
          ("for " ++ loopName ++ " = 1 to " ++ Text.showNat count.toNat ++ " do ...")
          (iterationsText count.toNat)])

theorem Simple.Entered.signed {who : Signature} {number : ℕ} {s : Simple} {e : Entry}
    (h : s.Entered who number e) : e.actor = who.actor ∧ e.time = who.clock number := by
  cases h <;> exact ⟨rfl, rfl⟩

namespace Command

variable {who : Signature} {cap first : ℕ} {p q : Progress} {summary : String} {flow : Flow}

def statements : Command → List Simple
  | simple s => [s]
  | branch _ onTrue onFalse => onTrue :: onFalse.toList
  | whileLoop _ body => [body]
  | forLoop _ body => [body]

theorem chosen_mem_statements (c : Condition) {met : Bool} {onTrue : Simple}
    {onFalse : Option Simple} {s : Simple} (h : chosen met onTrue onFalse = some s) :
    s ∈ (branch c onTrue onFalse).statements := by
  rw [chosen] at h
  split at h
  · obtain rfl := Option.some.inj h
    exact List.mem_cons_self
  · exact List.mem_cons_of_mem onTrue (Option.mem_toList.mpr h)

/-- Each entry is that of a statement, or that of a control structure, which tells whether the
condition was met or how many iterations there were. -/
theorem Chronicle.mem_cases {before : Variables} {command : Command} {own : List Entry}
    (h : command.Chronicle who cap first before flow own) {e : Entry} (he : e ∈ own) :
    (∃ s ∈ command.statements, ∃ number, s.Entered who number e) ∨
      ∃ number vars kind action told, e = who.entry number vars kind action told ∧
        ((∃ met, told = verdict met) ∨ ∃ front n, told = front ++ iterationsText n) := by
  have hcount : ∀ n, ∃ front n', iterationsText n = front ++ iterationsText n' :=
    fun n ↦ ⟨"", n, String.empty_append.symm⟩
  cases h with
  | simple h =>
      obtain rfl := List.mem_singleton.mp he
      exact .inl ⟨_, List.mem_singleton_self _, _, h⟩
  | @branch c onTrue onFalse met ran vars hmet hran =>
      obtain he | he := List.mem_append.mp he
      · rw [Option.mem_toList] at he
        cases hs : chosen met onTrue onFalse with
        | none =>
            rw [hs, he] at hran
            exact nomatch hran
        | some s =>
            rw [hs, he] at hran
            obtain ⟨hentered⟩ := hran
            exact .inl ⟨s, chosen_mem_statements c hs, _, hentered⟩
      · obtain rfl := List.mem_singleton.mp he
        exact .inr ⟨_, _, _, _, _, rfl, .inl ⟨met, rfl⟩⟩
  | whileLoop vars hcap hran =>
      obtain he | he := List.mem_append.mp he
      · exact .inl ⟨_, List.mem_singleton_self _, hran.exists_entered he⟩
      · obtain rfl := List.mem_singleton.mp he
        exact .inr ⟨_, _, _, _, _, rfl, .inr (hcount _)⟩
  | stoppedLoop vars hcap hran =>
      obtain he | he := List.mem_append.mp he
      · exact .inl ⟨_, List.mem_singleton_self _, hran.exists_entered he⟩
      · obtain rfl | he := List.mem_cons.mp he
        · exact .inr ⟨_, _, _, _, _, rfl, .inr (hcount _)⟩
        · obtain rfl := List.mem_singleton.mp he
          exact .inr ⟨_, _, _, _, _, rfl, .inr ⟨_, _, rfl⟩⟩
  | forLoop vars hcount' hran =>
      obtain he | he := List.mem_append.mp he
      · exact .inl ⟨_, List.mem_singleton_self _, hran.exists_entered he⟩
      · obtain rfl := List.mem_singleton.mp he
        exact .inr ⟨_, _, _, _, _, rfl, .inr (hcount _)⟩

theorem Chronicle.signed {before : Variables} {command : Command} {own : List Entry}
    (h : command.Chronicle who cap first before flow own) {e : Entry} (he : e ∈ own) :
    e.actor = who.actor ∧ ∃ number, e.time = who.clock number := by
  obtain ⟨s, -, number, hentered⟩ | ⟨number, vars, kind, action, told, rfl, -⟩ := h.mem_cases he
  · exact ⟨hentered.signed.1, number, hentered.signed.2⟩
  · exact ⟨rfl, number, rfl⟩

theorem Chronicle.length_le {before : Variables} {command : Command} {own : List Entry}
    (h : command.Chronicle who cap first before flow own) (hwell : command.WellFormed) :
    own.length ≤ max (cap + 2) (maxForCount + 1) := by
  cases h with
  | simple h => exact le_max_of_le_left (by simp)
  | @branch c onTrue onFalse met ran vars hmet hran =>
      have hone : ran.toList.length ≤ 1 := Option.length_toList_le
      rw [List.length_append, List.length_singleton]
      omega
  | whileLoop vars hcap hran =>
      rw [List.length_append, List.length_singleton]
      omega
  | stoppedLoop vars hcap hran =>
      rw [List.length_append, List.length_cons, List.length_singleton]
      omega
  | forLoop vars hcount hran =>
      have hmax := hwell.1
      rw [List.length_append, List.length_singleton]
      omega

theorem chronicle_of_runBranch {c : Condition} {onTrue : Simple} {onFalse : Option Simple}
    (h : runBranch who c onTrue onFalse p = .ok (summary, flow, q)) :
    ∃ own, q.journal.toList = p.journal.toList ++ own ∧
      (branch c onTrue onFalse).Chronicle who cap p.journal.size p.vars flow own := by
  obtain ⟨met, p', hmet, hran, rfl, rfl⟩ := runBranch_eq_ok h
  obtain ⟨ran, hentered, hjournal⟩ : ∃ ran : Option Entry,
      Option.Rel (Simple.Entered who p.journal.size) (chosen met onTrue onFalse) ran ∧
        p'.journal.toList = p.journal.toList ++ ran.toList := by
    obtain ⟨hnone, rfl⟩ | ⟨s, text, hsome, hrun⟩ := hran
    · rw [hnone]
      exact ⟨none, .none, (List.append_nil _).symm⟩
    · obtain ⟨e, he, hp'⟩ := Simple.entered_of_run hrun
      rw [hsome]
      exact ⟨some e, .some he, hp'⟩
  refine ⟨_, ?_, .branch p'.vars hmet hentered⟩
  exact Progress.toList_record hjournal _ _ _ _

theorem chronicle_of_runWhileLoop {c : Condition} {body : Simple}
    (h : runWhileLoop who cap c body p = (q, .ok (summary, flow))) :
    ∃ own, q.journal.toList = p.journal.toList ++ own ∧
      (whileLoop c body).Chronicle who cap p.journal.size p.vars flow own := by
  rw [runWhileLoop] at h
  dsimp only at h
  split at h
  · simp at h
  · next maxReached hending =>
    obtain ⟨rfl, hresult⟩ := Prod.mk.inj h
    obtain ⟨-, rfl⟩ := Prod.mk.inj (Except.ok.inj hresult)
    obtain ⟨ran, hjournal, hran, hcount, hle, hcap⟩ := exists_entries_of_runWhile hending
    rw [Nat.zero_add] at hcount
    rw [hcount]
    cases maxReached with
    | false =>
        refine ⟨_, ?_, .whileLoop (runWhile who c body cap 0 p).progress.vars hle hran⟩
        exact Progress.toList_record hjournal _ _ _ _
    | true =>
        refine ⟨_, ?_, .stoppedLoop (runWhile who c body cap 0 p).progress.vars (hcap rfl) hran⟩
        have hsummed := Progress.toList_record hjournal who .info ("while " ++ c.text ++ " do ...")
          (iterationsText ran.length)
        refine (Progress.toList_record hsummed who .warning "WARNING" _).trans ?_
        rw [List.append_assoc, List.length_append, List.length_singleton]
        rfl

theorem chronicle_of_runForLoop {count : UInt32} {body : Simple}
    (h : runForLoop who count body p = (q, .ok (summary, flow))) :
    ∃ own, q.journal.toList = p.journal.toList ++ own ∧
      (forLoop count body).Chronicle who cap p.journal.size p.vars flow own := by
  rw [runForLoop] at h
  dsimp only at h
  split at h
  · simp at h
  · next hending =>
    obtain ⟨rfl, hresult⟩ := Prod.mk.inj h
    obtain ⟨-, rfl⟩ := Prod.mk.inj (Except.ok.inj hresult)
    obtain ⟨ran, hjournal, hran, hcount⟩ := exists_entries_of_runFor hending
    refine ⟨_, ?_, .forLoop ((runFor who body count.toNat 1 p).1.vars.restore loopName
      (p.vars.binding loopName)) hcount hran⟩
    exact Progress.toList_record (p := { (runFor who body count.toNat 1 p).1 with
      vars := (runFor who body count.toNat 1 p).1.vars.restore loopName (p.vars.binding loopName)
      written := (runFor who body count.toNat 1 p).1.written.filter (· != loopName) })
      hjournal _ _ _ _

theorem chronicle_of_run {command : Command}
    (h : command.run who cap p = (q, .ok (summary, flow))) :
    ∃ own, q.journal.toList = p.journal.toList ++ own ∧
      command.Chronicle who cap p.journal.size p.vars flow own := by
  cases command with
  | simple s =>
      rw [run] at h
      split at h
      · next text ran hrun =>
        obtain ⟨rfl, hresult⟩ := Prod.mk.inj h
        obtain ⟨-, rfl⟩ := Prod.mk.inj (Except.ok.inj hresult)
        obtain ⟨e, he, hjournal⟩ := Simple.entered_of_run hrun
        exact ⟨[e], hjournal, .simple he⟩
      · simp at h
  | branch c onTrue onFalse =>
      rw [run] at h
      split at h
      · next text way ran hrun =>
        obtain ⟨rfl, hresult⟩ := Prod.mk.inj h
        obtain ⟨-, rfl⟩ := Prod.mk.inj (Except.ok.inj hresult)
        exact chronicle_of_runBranch hrun
      · simp at h
  | whileLoop c body => exact chronicle_of_runWhileLoop h
  | forLoop count body => exact chronicle_of_runForLoop h

end Command

/-! ## Machines -/

namespace Machine

variable {m after : Machine} {who : Signature} {command : Command}

theorem chronicle_of_execute {out : Outcome} (h : m.execute who command = (.ok out, after)) :
    ∃ own, after.journal.toList = m.journal.toList ++ own ∧
      command.Chronicle who m.cap m.journal.size m.vars out.flow own := by
  rw [execute] at h
  split at h
  · next p summary flow hrun =>
    obtain ⟨hout, rfl⟩ := Prod.mk.inj h
    obtain rfl := Except.ok.inj hout
    exact Command.chronicle_of_run hrun
  · simp at h

/-- What was done before the fault is not in the journal: there was nothing. -/
theorem journal_of_execute_error {fault : Fault}
    (h : m.execute who command = (.error fault, after)) :
    after.journal.toList = m.journal.toList ++
      [who.entry m.journal.size after.vars .error command.text ("Error: " ++ fault.message)] := by
  rw [execute] at h
  split at h
  · simp at h
  · next p other hrun =>
    obtain ⟨-, hjournal⟩ := Command.run_of_fault hrun
    obtain ⟨hfault, rfl⟩ := Prod.mk.inj h
    obtain rfl := Except.error.inj hfault
    have hold : p.journal = m.journal := hjournal
    rw [← hold]
    exact Array.toList_push

/-- The entries that a machine makes for a command: its chronicle, or one for its fault. -/
theorem exists_own_of_execute (m : Machine) (who : Signature) (command : Command) :
    ∃ own, (m.execute who command).2.journal.toList = m.journal.toList ++ own ∧
      ((∃ flow, command.Chronicle who m.cap m.journal.size m.vars flow own) ∨
        ∃ vars fault, own = [who.entry m.journal.size vars .error command.text
          ("Error: " ++ Fault.message fault)]) := by
  cases hresult : (m.execute who command).1 with
  | ok out =>
      have hrun : m.execute who command = (.ok out, (m.execute who command).2) :=
        Prod.ext hresult rfl
      obtain ⟨own, hjournal, hown⟩ := chronicle_of_execute hrun
      exact ⟨own, hjournal, .inl ⟨out.flow, hown⟩⟩
  | error fault =>
      have hrun : m.execute who command = (.error fault, (m.execute who command).2) :=
        Prod.ext hresult rfl
      exact ⟨_, journal_of_execute_error hrun, .inr ⟨_, fault, rfl⟩⟩

end Machine

end LessonDeck
