import LessonDeck.Proofs.Machine.Control
/-!
# What a command has written

While a command runs, every name is accounted for: either it has not been written and is bound as
before, or it has been written and holds a value.  At the end of a command the names it has written,
with what they hold, are exactly what has changed.
-/

namespace LessonDeck

/-- The names that the statements of a command write to.  A `for` loop gives its variable back. -/
def Command.targets : Command → List String
  | simple s => s.target?.toList
  | branch _ onTrue onFalse => onTrue.target?.toList ++ (onFalse.bind Simple.target?).toList
  | whileLoop _ body => body.target?.toList
  | forLoop _ body => body.target?.toList.filter (· != loopName)

/-- A name is bound as before, or it has been written, to one of the targets, and holds a value. -/
structure Accounts (before : Variables) (targets : List String) (p : Progress) (name : String) :
    Prop where
  kept : name ∉ p.written → p.vars.binding name = before.binding name
  held : name ∈ p.written → p.vars.Initialized name ∧ name ∈ targets

namespace Accounts

variable {before : Variables} {targets : List String} {p q : Progress} {name : String}

theorem effect (h : Accounts before targets p name) {who : Signature} {s : Simple}
    (htarget : s.target? = some name → name ∈ targets) (heffect : s.Effect who p q) :
    Accounts before targets q name := by
  cases heffect with
  | @writes target v result hs =>
      by_cases hname : target = name
      · subst name
        exact ⟨fun hnot ↦ (hnot List.mem_insert_self).elim,
          fun _ ↦ ⟨Variables.initialized_write p.vars target v, htarget hs⟩⟩
      · constructor
        · intro hnot
          have hold : name ∉ p.written := fun hmem ↦ hnot (List.mem_insert_of_mem hmem)
          change (p.vars.write target (some v)).binding name = _
          rw [Variables.binding_write, if_neg hname, h.kept hold]
        · intro hmem
          obtain heq | hold := List.mem_insert_iff.mp hmem
          · exact (hname heq.symm).elim
          · obtain ⟨hvalue, htarget⟩ := h.held hold
            exact ⟨hvalue.write target v, htarget⟩
  | prints v result hs hv => exact ⟨h.kept, h.held⟩

/-- Binding the loop variable is no matter to the other names. -/
theorem count (h : Accounts before targets p name) (hname : name ≠ loopName) (i : ℕ) :
    Accounts before targets (p.count i) name := by
  constructor
  · intro hnot
    change (p.vars.write loopName _).binding name = _
    rw [Variables.binding_write, if_neg hname.symm, h.kept hnot]
  · intro hmem
    obtain ⟨hvalue, htarget⟩ := h.held hmem
    exact ⟨hvalue.write loopName _, htarget⟩

theorem runWhile (h : Accounts before targets p name) {body : Simple}
    (htarget : body.target? = some name → name ∈ targets) (who : Signature) (c : Condition)
    (left done : ℕ) :
    Accounts before targets (runWhile who c body left done p).progress name := by
  apply runWhile_preserves (P := fun p ↦ Accounts before targets p name) _ h
  intro p q text hp hrun
  exact hp.effect htarget (Simple.effect_of_run hrun).2

theorem runFor (h : Accounts before targets p name) (hname : name ≠ loopName) {body : Simple}
    (htarget : body.target? = some name → name ∈ targets) (who : Signature) (left i : ℕ) :
    Accounts before targets (runFor who body left i p).1 name := by
  apply runFor_preserves (P := fun p ↦ Accounts before targets p name) _ _ i h
  · intro p i hp
    exact hp.count hname i
  · intro p q text hp hrun
    exact hp.effect htarget (Simple.effect_of_run hrun).2

/-- Giving the loop variable back is no matter to the other names. -/
theorem giveBack (h : Accounts before targets p name) (hname : loopName ≠ name)
    (prior : Option (Option Int64)) :
    Accounts before targets { p with
      vars := p.vars.restore loopName prior
      written := p.written.filter (· != loopName) } name := by
  constructor
  · intro hnot
    have hold : name ∉ p.written := fun hmem ↦
      hnot (List.mem_filter.mpr ⟨hmem, by simpa using hname.symm⟩)
    change (p.vars.restore loopName prior).binding name = _
    rw [Variables.binding_restore, if_neg hname, h.kept hold]
  · intro hmem
    obtain ⟨hvalue, hmember⟩ := h.held (List.mem_of_mem_filter hmem)
    exact ⟨hvalue.restore hname prior, hmember⟩

theorem record (h : Accounts before targets p name) (who : Signature) (kind : EntryKind)
    (action result : String) : Accounts before targets (p.record who kind action result) name :=
  ⟨h.kept, h.held⟩

theorem start (targets : List String) (hwritten : p.written = []) (name : String) :
    Accounts p.vars targets p name := by
  refine ⟨fun _ ↦ rfl, fun hmem ↦ ?_⟩
  rw [hwritten] at hmem
  exact nomatch hmem

/-! ## Commands -/

theorem runBranch {who : Signature} {c : Condition} {onTrue : Simple} {onFalse : Option Simple}
    {summary : String} {flow : Flow} (hwritten : p.written = [])
    (h : Command.runBranch who c onTrue onFalse p = .ok (summary, flow, q)) (name : String) :
    Accounts p.vars (Command.branch c onTrue onFalse).targets q name := by
  obtain ⟨met, p', -, hran, -, rfl⟩ := runBranch_eq_ok h
  refine record ?_ _ _ _ _
  obtain ⟨-, rfl⟩ | ⟨s, text, hs, hrun⟩ := hran
  · exact start _ hwritten name
  · refine (start _ hwritten name).effect (fun htarget ↦ ?_) (Simple.effect_of_run hrun).2
    rw [chosen] at hs
    rw [Command.targets, List.mem_append]
    split at hs
    · obtain rfl := Option.some.inj hs
      exact .inl (Option.mem_toList.mpr htarget)
    · rw [hs]
      exact .inr (Option.mem_toList.mpr htarget)

theorem runWhileLoop {who : Signature} {cap : ℕ} {c : Condition} {body : Simple}
    {result : String × Flow} (hwritten : p.written = [])
    (h : Command.runWhileLoop who cap c body p = (q, .ok result)) (name : String) :
    Accounts p.vars (Command.whileLoop c body).targets q name := by
  have hran := (start (Command.whileLoop c body).targets hwritten name).runWhile
    Option.mem_toList.mpr who c cap 0
  rw [Command.runWhileLoop] at h
  dsimp only at h
  split at h
  · simp at h
  · next maxReached hending =>
    obtain ⟨rfl, -⟩ := Prod.mk.inj h
    split
    · exact (hran.record _ _ _ _).record _ _ _ _
    · exact hran.record _ _ _ _

theorem runForLoop {who : Signature} {count : UInt32} {body : Simple}
    {result : String × Flow} (hwritten : p.written = [])
    (h : Command.runForLoop who count body p = (q, .ok result)) (name : String) :
    Accounts p.vars (Command.forLoop count body).targets q name := by
  rw [Command.runForLoop] at h
  dsimp only at h
  split at h
  · simp at h
  · obtain ⟨rfl, -⟩ := Prod.mk.inj h
    refine record ?_ _ _ _ _
    by_cases hname : loopName = name
    · subst name
      constructor
      · intro _
        exact (Variables.binding_restore ..).trans (if_pos rfl)
      · intro hmem
        simpa using List.of_mem_filter hmem
    · have htarget : body.target? = some name → name ∈ (Command.forLoop count body).targets :=
        fun hbody ↦ List.mem_filter.mpr
          ⟨Option.mem_toList.mpr hbody, by simpa using Ne.symm hname⟩
      have hran := (start _ hwritten name).runFor (Ne.symm hname) htarget who count.toNat 1
      exact hran.giveBack hname _

theorem run {who : Signature} {cap : ℕ} {command : Command} {result : String × Flow}
    (hwritten : p.written = []) (h : command.run who cap p = (q, .ok result)) (name : String) :
    Accounts p.vars command.targets q name := by
  cases command with
  | simple s =>
      rw [Command.run] at h
      split at h
      · next summary ran hrun =>
        obtain ⟨rfl, -⟩ := Prod.mk.inj h
        exact (start _ hwritten name).effect Option.mem_toList.mpr (Simple.effect_of_run hrun).2
      · simp at h
  | branch c onTrue onFalse =>
      rw [Command.run] at h
      split at h
      · next summary flow ran hrun =>
        obtain ⟨rfl, -⟩ := Prod.mk.inj h
        exact runBranch hwritten hrun name
      · simp at h
  | whileLoop c body => exact runWhileLoop hwritten h name
  | forLoop count body => exact runForLoop hwritten h name

end Accounts

namespace Machine

/-- The variables that a command reports as updated are what has changed: laid over the variables
before it, they are the variables after it.  Only targets of the command are among them.  The
variable of a `for` loop is not, and it is bound afterwards as it was before. -/
theorem overlay_updated_of_execute {m after : Machine} {who : Signature} {command : Command}
    {out : Outcome} (h : m.execute who command = (.ok out, after)) :
    after.vars = m.vars.overlay out.updated ∧
      (∀ name, out.updated.binding name ≠ none → name ∈ command.targets) ∧
      ∀ count body, command = .forLoop count body →
        out.updated.binding loopName = none ∧
          after.vars.binding loopName = m.vars.binding loopName := by
  rw [execute] at h
  split at h
  · next p summary flow hrun =>
    obtain ⟨hout, rfl⟩ := Prod.mk.inj h
    obtain rfl := Except.ok.inj hout
    have haccounts : ∀ name, Accounts m.vars command.targets p name :=
      Accounts.run (p := m.start) rfl hrun
    have hupdated : ∀ name, (Variables.ofList (p.written.map fun n ↦
        (n, p.vars.value? n))).binding name =
          if name ∈ p.written then some (p.vars.value? name) else none :=
      Variables.binding_ofList_map p.vars.value? p.written
    have hloop : ∀ count body, command = .forLoop count body → loopName ∉ p.written := by
      rintro count body rfl hmem
      have htarget := ((haccounts loopName).held hmem).2
      simpa using List.of_mem_filter htarget
    refine ⟨Variables.ext_binding fun name ↦ ?_, fun name hname ↦ ?_, fun count body hfor ↦ ?_⟩
    · rw [Variables.binding_overlay, hupdated]
      split
      · next hmem => exact Variables.binding_of_initialized ((haccounts name).held hmem).1
      · next hnot => exact (haccounts name).kept hnot
    · rw [hupdated] at hname
      by_cases hmem : name ∈ p.written
      · exact ((haccounts name).held hmem).2
      · exact (hname (if_neg hmem)).elim
    · have hnot := hloop count body hfor
      exact ⟨(hupdated loopName).trans (if_neg hnot), (haccounts loopName).kept hnot⟩
  · simp at h

/-- A body that reads `i`, which is there beforehand but holds nothing. -/
theorem overlay_updated_of_execute_forLoop :
    let m : Machine := { new 50 with vars := Variables.fresh.bind loopName none }
    ∃ out after, m.execute (.once "g1" .epoch) (.forLoop 2 (.compute "x" loopName .add 1)) =
        (.ok out, after) ∧
      out.updated.binding "x" = some (some 3) ∧ after.vars = m.vars.overlay out.updated ∧
      out.updated.binding loopName = none ∧ after.vars.binding loopName = some none := by
  intro m
  obtain ⟨out, after, hrun, hx⟩ : ∃ out after, m.execute (.once "g1" .epoch)
      (.forLoop 2 (.compute "x" loopName .add 1)) = (.ok out, after) ∧
        out.updated.binding "x" = some (some 3) := ⟨_, _, rfl, rfl⟩
  obtain ⟨hoverlay, -, hloop⟩ := overlay_updated_of_execute hrun
  obtain ⟨hnone, hbinding⟩ := hloop _ _ rfl
  exact ⟨out, after, hrun, hx, hoverlay, hnone, hbinding.trans rfl⟩

end Machine

end LessonDeck
