import LessonDeck.Proofs.Machine.Control
import LessonDeck.Proofs.Value
/-!
# Values stay in range

Whatever a machine is asked to do, its variables keep values of the range, and so do its outcomes and
the entries it makes.  All writes clamp but one: a `for` loop puts back what its variable was bound to
before, which is in range because the variables were.  Entries that were taken over with a checkpoint
are none of the machine's, so the journal is followed from the last time it was replaced.
-/

namespace LessonDeck

namespace Variables

/-- All values of the table are in range. -/
def InRange (vars : Variables) : Prop :=
  ∀ name v, vars.value? name = some v → Value.InRange v

variable {vars : Variables}

theorem inRange_of_binding {name : String} {prior : Option (Option Int64)} {other : Variables}
    (h : vars.InRange) (hprior : ∀ v, prior = some (some v) → Value.InRange v)
    (hbinding : ∀ n, other.binding n = if name = n then prior else vars.binding n) :
    other.InRange := by
  intro n v hv
  rw [value?, hbinding] at hv
  split at hv
  · exact hprior v (Option.join_eq_some_iff.mp hv)
  · exact h n v hv

theorem InRange.write (h : vars.InRange) (name : String) (held : Option Int64) :
    (vars.write name held).InRange := by
  refine inRange_of_binding h ?_ (binding_write vars name · held)
  rintro v hv
  obtain ⟨w, -, rfl⟩ := Option.map_eq_some_iff.mp (Option.some.inj hv)
  exact Value.inRange_clamp w

/-- Nothing is clamped here, but the former binding is in range already. -/
theorem InRange.restore (h : vars.InRange) (name : String) {before : Variables}
    (hbefore : before.InRange) : (vars.restore name (before.binding name)).InRange := by
  refine inRange_of_binding h ?_ (binding_restore vars name · _)
  intro v hv
  exact hbefore name v (Option.join_eq_some_iff.mpr hv)

theorem inRange_clamped (vars : Variables) : vars.clamped.InRange := by
  intro name v hv
  rw [value?, binding_clamped, Option.join_eq_some_iff] at hv
  obtain ⟨held, -, hheld⟩ := Option.map_eq_some_iff.mp hv
  obtain ⟨w, -, rfl⟩ := Option.map_eq_some_iff.mp hheld
  exact Value.inRange_clamp w

theorem inRange_fresh : fresh.InRange := by
  intro name v hv
  rw [value?, fresh, binding_bind] at hv
  split at hv
  · cases hv
  · cases hv

theorem InRange.foldl_write (h : vars.InRange) (bindings : List Binding) :
    (bindings.foldl (fun vars b ↦ vars.write b.1 b.2) vars).InRange := by
  induction bindings generalizing vars with
  | nil => exact h
  | cons b bindings ih => exact ih (h.write b.1 b.2)

end Variables

/-! ## Progress -/

/-- Everything is in range that a progress holds, with the entries behind those it started from. -/
structure Progress.InRange (base : Array Entry) (p : Progress) : Prop where
  vars : p.vars.InRange
  printed : ∀ shown ∈ p.printed, Value.InRange shown.value
  journal : ∃ own : Array Entry, p.journal = base ++ own ∧ ∀ e ∈ own, e.snapshot.InRange

namespace Progress.InRange

variable {base : Array Entry} {p q : Progress} {who : Signature}

theorem record (h : p.InRange base) (who : Signature) (kind : EntryKind)
    (action result : String) : (p.record who kind action result).InRange base := by
  obtain ⟨own, hjournal, hown⟩ := h.journal
  refine ⟨h.vars, h.printed, own.push (who.entry p.journal.size p.vars kind action result), ?_, ?_⟩
  · rw [Progress.record, hjournal, Array.push_append]
  · intro e he
    obtain he | rfl := Array.mem_push.mp he
    · exact hown e he
    · exact h.vars

theorem effect (h : p.InRange base) {s : Simple} (heffect : s.Effect who p q) :
    q.InRange base := by
  cases heffect with
  | @writes name v result hs =>
      have hwritten : (p.write name v).InRange base := ⟨h.vars.write name _, h.printed, h.journal⟩
      exact hwritten.record who .info s.text result
  | @prints name v result hs hv =>
      have hrecorded := h.record who .info s.text result
      refine ⟨hrecorded.vars, fun shown hshown ↦ ?_, hrecorded.journal⟩
      obtain hshown | rfl := Array.mem_push.mp hshown
      · exact h.printed shown hshown
      · exact h.vars name v hv

theorem run (h : p.InRange base) {s : Simple} {text : String}
    (hrun : s.run who p = .ok (text, q)) : q.InRange base :=
  h.effect (Simple.effect_of_run hrun).2

theorem count (h : p.InRange base) (i : ℕ) : (p.count i).InRange base :=
  ⟨h.vars.write loopName _, h.printed, h.journal⟩

/-- What the loop variable is given back was in range before the loop. -/
theorem giveBack (h : p.InRange base) {before : Variables} (hbefore : before.InRange) :
    InRange base { p with
      vars := p.vars.restore loopName (before.binding loopName)
      written := p.written.filter (· != loopName) } :=
  ⟨h.vars.restore loopName hbefore, h.printed, h.journal⟩

/-! ## Commands -/

theorem runBranch (h : p.InRange base) {c : Condition} {onTrue : Simple}
    {onFalse : Option Simple} {summary : String} {flow : Flow}
    (hrun : Command.runBranch who c onTrue onFalse p = .ok (summary, flow, q)) :
    q.InRange base := by
  obtain ⟨met, p', -, hran, -, rfl⟩ := runBranch_eq_ok hrun
  refine record ?_ _ _ _ _
  obtain ⟨-, rfl⟩ | ⟨s, text, -, hs⟩ := hran
  · exact h
  · exact h.run hs

theorem runWhileLoop (h : p.InRange base) (who : Signature) (cap : ℕ) (c : Condition)
    (body : Simple) : (Command.runWhileLoop who cap c body p).1.InRange base := by
  have hran : (runWhile who c body cap 0 p).progress.InRange base :=
    runWhile_preserves (fun _ _ _ hp hrun ↦ hp.run hrun) h
  rw [Command.runWhileLoop]
  dsimp only
  split
  · exact hran
  · have hsummed := hran.record who .info ("while " ++ c.text ++ " do ...")
      (iterationsText (runWhile who c body cap 0 p).iterations)
    dsimp only
    split
    · exact hsummed.record _ _ _ _
    · exact hsummed

theorem runForLoop (h : p.InRange base) (who : Signature) (count : UInt32) (body : Simple) :
    (Command.runForLoop who count body p).1.InRange base := by
  have hran : (runFor who body count.toNat 1 p).1.InRange base :=
    runFor_preserves (fun _ i hp ↦ hp.count i) (fun _ _ _ hp hrun ↦ hp.run hrun) 1 h
  have hback := hran.giveBack h.vars
  rw [Command.runForLoop]
  dsimp only
  split
  · exact hback
  · exact hback.record _ _ _ _

theorem runCommand (h : p.InRange base) (who : Signature) (cap : ℕ) (command : Command) :
    (command.run who cap p).1.InRange base := by
  cases command with
  | simple s =>
      rw [Command.run]
      split
      · next summary q hrun => exact h.run hrun
      · exact h
  | branch c onTrue onFalse =>
      rw [Command.run]
      split
      · next summary flow q hrun => exact h.runBranch hrun
      · exact h
  | whileLoop c body => exact h.runWhileLoop who cap c body
  | forLoop count body => exact h.runForLoop who count body

end Progress.InRange

/-! ## Machines -/

/-- What a machine can be asked to do. -/
inductive Operation where
  | execute (who : Signature) (command : Command)
  | setVariables (vars : Variables)
  | log (who : Signature) (kind : EntryKind) (action result : String)
  | reset
  | restore (c : Checkpoint)

namespace Machine

def perform (m : Machine) : Operation → Machine
  | .execute who command => (m.execute who command).2
  | .setVariables vars => m.setVariables vars
  | .log who kind action result => m.log who kind action result
  | .reset => m.reset
  | .restore c => m.restore c

/-- The machine after operations, one after the other. -/
def performAll (m : Machine) (ops : List Operation) : Machine :=
  ops.foldl perform m

end Machine

/-- The part of the journal that was not made since: what a checkpoint brought, or nothing. -/
def Operation.inherited (base : Array Entry) : Operation → Array Entry
  | reset => #[]
  | restore c => c.journal
  | _ => base

namespace Machine

/-- The variables are in range, and so are the entries behind those it inherited. -/
structure InRange (base : Array Entry) (m : Machine) : Prop where
  vars : m.vars.InRange
  journal : ∃ own : Array Entry, m.journal = base ++ own ∧ ∀ e ∈ own, e.snapshot.InRange

/-- A machine that has made no entry yet. -/
theorem inRange_of_vars {m : Machine} (h : m.vars.InRange) : m.InRange m.journal :=
  ⟨h, #[], (Array.append_empty ..).symm, fun _ he ↦ absurd he (Array.not_mem_empty _)⟩

theorem inRange_new (cap : ℕ) : (new cap).InRange #[] :=
  inRange_of_vars (m := new cap) Variables.inRange_fresh

namespace InRange

variable {base : Array Entry} {m : Machine}

theorem start (h : m.InRange base) : m.start.InRange base :=
  ⟨h.vars, fun _ hshown ↦ absurd hshown (Array.not_mem_empty _), h.journal⟩

theorem log (h : m.InRange base) (who : Signature) (kind : EntryKind) (action result : String) :
    (m.log who kind action result).InRange base := by
  have hprogress := h.start.record who kind action result
  exact ⟨hprogress.vars, hprogress.journal⟩

theorem execute (h : m.InRange base) (who : Signature) (command : Command) :
    (m.execute who command).2.InRange base := by
  have hran := h.start.runCommand who m.cap command
  rw [Machine.execute]
  split
  · next p summary flow hrun =>
    rw [hrun] at hran
    exact ⟨hran.vars, hran.journal⟩
  · next p fault hrun =>
    rw [hrun] at hran
    exact log ⟨hran.vars, hran.journal⟩ who .error command.text _

theorem outcome (h : m.InRange base) {who : Signature} {command : Command} {out : Outcome}
    (hout : (m.execute who command).1 = .ok out) :
    (∀ shown ∈ out.printed, Value.InRange shown.value) ∧ out.updated.InRange := by
  have hran := h.start.runCommand who m.cap command
  rw [Machine.execute] at hout
  split at hout
  · next p summary flow hrun =>
    rw [hrun] at hran
    obtain rfl := Except.ok.inj hout
    refine ⟨fun shown hshown ↦ hran.printed shown (Array.mem_toList_iff.mp hshown), ?_⟩
    intro name v hv
    rw [Variables.value?, Variables.binding_ofList_map] at hv
    split at hv
    · exact hran.vars name v (Option.some.inj (Option.join_eq_some_iff.mp hv))
    · cases hv
  · cases hout

theorem perform (h : m.InRange base) (op : Operation) :
    (m.perform op).InRange (op.inherited base) := by
  cases op with
  | execute who command => exact h.execute who command
  | setVariables vars => exact ⟨h.vars.foldl_write vars.entries, h.journal⟩
  | log who kind action result => exact h.log who kind action result
  | reset => exact inRange_new m.cap
  | restore c => exact inRange_of_vars (m := m.restore c) (Variables.inRange_clamped c.vars)

theorem performAll (h : m.InRange base) (ops : List Operation) :
    (m.performAll ops).InRange (ops.foldl Operation.inherited base) := by
  induction ops generalizing base m with
  | nil => exact h
  | cons op ops ih => exact ih (h.perform op)

end InRange

/-- After any operations of a machine its variables are in range.  So are the variables in every entry
that it has made since its journal was last replaced, and whatever a command prints and reports as
updated from there. -/
theorem inRange_performAll (cap : ℕ) (ops : List Operation) :
    let m := (new cap).performAll ops
    m.vars.InRange ∧
    (∃ own : Array Entry, m.journal = ops.foldl Operation.inherited #[] ++ own ∧
      ∀ e ∈ own, e.snapshot.InRange) ∧
    ∀ who command out, (m.execute who command).1 = .ok out →
      (∀ shown ∈ out.printed, Value.InRange shown.value) ∧ out.updated.InRange := by
  intro m
  have h : m.InRange (ops.foldl Operation.inherited #[]) := (inRange_new cap).performAll ops
  exact ⟨h.vars, h.journal, fun _ _ _ hout ↦ h.outcome hout⟩

/-- A checkpoint with `i` beyond the range, and a loop that takes another variable there. -/
theorem inRange_performAll_restore :
    let c : Checkpoint := ⟨Variables.fresh.bind loopName (some 5000000000), #[], .epoch⟩
    let m := (new 50).performAll [.restore c]
    let command : Command := .forLoop 2 (.compute "x" loopName .mul (-4000000000))
    ∃ out, (m.execute (.once "g1" .epoch) command).1 = .ok out ∧
      out.updated.value? "x" = some (-1000000000) ∧ out.updated.InRange ∧
      (m.execute (.once "g1" .epoch) command).2.vars.value? loopName = some 1000000000 := by
  intro c m command
  obtain ⟨out, hout, hx⟩ : ∃ out, (m.execute (.once "g1" .epoch) command).1 = .ok out ∧
      out.updated.value? "x" = some (-1000000000) := ⟨_, rfl, rfl⟩
  obtain ⟨-, -, houtcome⟩ := inRange_performAll 50 [.restore c]
  exact ⟨out, hout, hx, (houtcome _ command out hout).2, rfl⟩

end Machine

end LessonDeck
