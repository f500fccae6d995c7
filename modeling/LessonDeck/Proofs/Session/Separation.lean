import LessonDeck.Proofs.Machine.Blank
import LessonDeck.Proofs.Session.Run
/-!
# The wheel and the table keep apart

A session has a side of the wheel, the wheel and its draws, and a side of the table, the level, the
machine but for its journal, and the draws of the teacher.  An operation on one side finds its
answer there and leaves the other side alone; a reset acts on both.  So what was asked of one side
can be deleted from a run, and nobody on the other side will know.
-/

namespace LessonDeck.Session

/-! ## Deleting operations from a run -/

/-- Operations can be deleted that do not change a view of the session, if the others find their
answers, and what becomes of the view, in the view alone. -/
theorem transcript_filter {V : Type} (view : Session → V) (keep : Operation → Bool)
    (hkeep : ∀ op s t, keep op = true → view s = view t →
      (s.perform op).1 = (t.perform op).1 ∧ view (s.perform op).2 = view (t.perform op).2)
    (hdrop : ∀ op s, keep op = false → view (s.perform op).2 = view s)
    (ops : List Operation) {s t : Session} (h : view s = view t) :
    (s.transcript ops).filter (fun asked ↦ keep asked.1) = t.transcript (ops.filter keep) ∧
      view (s.performAll ops) = view (t.performAll (ops.filter keep)) := by
  induction ops generalizing s t with
  | nil => exact ⟨rfl, h⟩
  | cons op ops ih =>
      cases hop : keep op with
      | false =>
          have hview : view (s.perform op).2 = view t := (hdrop op s hop).trans h
          rw [transcript, List.filter_cons_of_neg (by simp [hop]),
            List.filter_cons_of_neg (by simp [hop])]
          exact ih hview
      | true =>
          obtain ⟨hanswer, hview⟩ := hkeep op s t hop h
          obtain ⟨htranscript, hafter⟩ := ih hview
          have hops : (op :: ops).filter keep = op :: ops.filter keep :=
            List.filter_cons_of_pos hop
          rw [hops, transcript, transcript, List.filter_cons_of_pos (by simpa using hop), hanswer,
            htranscript]
          exact ⟨rfl, hafter⟩

/-! ## The two sides -/

def Operation.turnsWheel : Operation → Bool
  | spin _ => true
  | forceColor _ _ => true
  | _ => false

def Operation.atTable : Operation → Bool
  | spin _ => false
  | forceColor _ _ => false
  | reset => false
  | _ => true

def wheelSide (s : Session) : SessionWheel × Draw.Source :=
  (s.wheel, s.wheelDraws)

def tableSide (s : Session) : ℕ × Machine × Draw.Source :=
  (s.level, s.machine.blank, s.tableDraws)

variable {s t : Session}

theorem wheelSide_perform_of_atTable {op : Operation} (hop : op.atTable = true) (s : Session) :
    wheelSide (s.perform op).2 = wheelSide s := by
  cases op with
  | submit who cards =>
      simp only [perform, submit]
      split <;> rfl
  | setLevel level =>
      simp only [perform, setLevel]
      cases checkLevel level <;> rfl
  | check cards => rfl
  | setVariables clock vars => rfl
  | randomize time => rfl
  | importBundle b => rfl
  | spin time => simp [Operation.atTable] at hop
  | forceColor time name => simp [Operation.atTable] at hop
  | reset => simp [Operation.atTable] at hop

theorem perform_of_wheelSide_eq {op : Operation} (hop : op.atTable = false)
    (h : wheelSide s = wheelSide t) :
    (s.perform op).1 = (t.perform op).1 ∧
      wheelSide (s.perform op).2 = wheelSide (t.perform op).2 := by
  obtain ⟨hwheel, hdraws⟩ := Prod.mk.inj h
  cases op with
  | spin time =>
      simp only [perform, spin_eq, wheelSide, hwheel, hdraws, and_self]
  | forceColor time name =>
      simp only [perform, forceColor_eq, wheelSide, hwheel, hdraws, and_self]
  | reset =>
      simp only [perform, reset, wheelSide, hwheel, hdraws, and_self]
  | _ => simp [Operation.atTable] at hop

theorem blank_told (m : Machine) (who : Signature) (action : String)
    (result : Except (WheelError Float) SpinOutcome) :
    (told m who action result).blank = m.blank := by
  cases result <;> rfl

theorem tableSide_perform_of_turnsWheel {op : Operation} (hop : op.turnsWheel = true)
    (s : Session) : tableSide (s.perform op).2 = tableSide s := by
  cases op with
  | spin time => simp only [perform, spin_eq, tableSide, blank_told]
  | forceColor time name => simp only [perform, forceColor_eq, tableSide, blank_told]
  | _ => simp [Operation.turnsWheel] at hop

theorem blank_override {m n : Machine} (h : m.blank = n.blank) (clock : ℕ → Instant)
    (b : Binding) : (override clock m b).blank = (override clock n b).blank := by
  injection h with hvars _ hcap
  simp only [override, Machine.log, Machine.blank, hvars, hcap]

theorem blank_overrides {m n : Machine} (h : m.blank = n.blank) (clock : ℕ → Instant)
    (bs : List Binding) :
    (bs.foldl (override clock) m).blank = (bs.foldl (override clock) n).blank := by
  induction bs generalizing m n with
  | nil => exact h
  | cons b bs ih => exact ih (blank_override h clock b)

theorem perform_of_tableSide_eq {op : Operation} (hop : op.turnsWheel = false)
    (h : tableSide s = tableSide t) :
    (s.perform op).1 = (t.perform op).1 ∧
      tableSide (s.perform op).2 = tableSide (t.perform op).2 := by
  obtain ⟨hlevel, hrest⟩ := Prod.mk.inj h
  obtain ⟨hblank, hdraws⟩ := Prod.mk.inj hrest
  have hblanks := hblank
  injection hblanks with hvars _ hcap
  cases op with
  | submit who cards =>
      simp only [perform, submit, check, hlevel]
      cases ParsedCommand.ofCards t.level cards with
      | error e => exact ⟨rfl, h⟩
      | ok parsed =>
          obtain ⟨hresult, hafter⟩ := Machine.execute_of_blank_eq who who hblank parsed.command
          exact ⟨congrArg (fun result ↦ Answer.submission (.ok (parsed, result))) hresult,
            by simp only [tableSide, hafter, hdraws]⟩
  | check cards => exact ⟨by simp only [perform, check, hlevel], h⟩
  | setLevel level =>
      simp only [perform, setLevel]
      cases checkLevel level with
      | error e => exact ⟨rfl, h⟩
      | ok _ => exact ⟨rfl, congrArg (level, ·) hrest⟩
  | setVariables clock vars =>
      have hafter := blank_overrides hblank clock vars.entries
      exact ⟨rfl, by simp only [perform, setVariables, tableSide, hlevel, hafter, hdraws]⟩
  | randomize time =>
      refine ⟨by simp only [perform, randomize, hdraws], ?_⟩
      simp only [perform, randomize, tableSide, Machine.log, Machine.blank, hlevel, hvars, hcap,
        hdraws]
  | importBundle b =>
      refine ⟨rfl, ?_⟩
      simp only [perform, importBundle, tableSide, Machine.restore, Machine.blank, hlevel, hcap,
        hdraws]
  | reset =>
      refine ⟨rfl, ?_⟩
      simp only [perform, reset, tableSide, Machine.reset, Machine.new, Machine.blank, hlevel,
        hcap, hdraws]
  | spin time => simp [Operation.turnsWheel] at hop
  | forceColor time name => simp [Operation.turnsWheel] at hop

/-! ## Neither side knows of the other -/

/-- Without what was asked at the table, the wheel gives the same answers and ends with the same
figures; without what was asked of the wheel, the table gives the same answers and ends with the
same variables and at the same level. -/
theorem wheel_and_table_keep_apart (s : Session) (ops : List Operation) :
    ((s.transcript ops).filter (!·.1.atTable) = s.transcript (ops.filter (!·.atTable)) ∧
        (s.performAll ops).stats = (s.performAll (ops.filter (!·.atTable))).stats) ∧
      (s.transcript ops).filter (!·.1.turnsWheel) = s.transcript (ops.filter (!·.turnsWheel)) ∧
        (s.performAll ops).vars = (s.performAll (ops.filter (!·.turnsWheel))).vars ∧
        (s.performAll ops).level = (s.performAll (ops.filter (!·.turnsWheel))).level := by
  constructor
  · obtain ⟨hanswers, hside⟩ := transcript_filter wheelSide (!·.atTable)
      (fun op s t hop ↦ perform_of_wheelSide_eq (by simpa using hop))
      (fun op s hop ↦ wheelSide_perform_of_atTable (by simpa using hop) s) ops
      (rfl : wheelSide s = _)
    have hwheel := congrArg Prod.fst hside
    exact ⟨hanswers, congrArg SessionWheel.stats hwheel⟩
  · obtain ⟨hanswers, hside⟩ := transcript_filter tableSide (!·.turnsWheel)
      (fun op s t hop ↦ perform_of_tableSide_eq (by simpa using hop))
      (fun op s hop ↦ tableSide_perform_of_turnsWheel (by simpa using hop) s) ops
      (rfl : tableSide s = _)
    have hvars := congrArg (fun side ↦ side.2.1.vars) hside
    exact ⟨hanswers, hvars, congrArg Prod.fst hside⟩

end LessonDeck.Session
