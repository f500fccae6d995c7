import Mathlib
import LessonDeck.Command.Parse
/-!
# Taking a row apart by positions

A row is split at the first card with a keyword on it.  It can also be taken apart by the positions
of the keywords, in slices from one position up to another.  Such a reader may ask for a slice that
the row does not have; then it gives no answer at all.  This never happens: on every row it answers
as the reader does that splits.
-/

namespace LessonDeck

variable {word : Keyword} {row before behind : List Meaning}

/-! ## Splitting a row -/

theorem splitAtKeyword?_append (h : .keyword word ∉ before) (behind : List Meaning) :
    splitAtKeyword? word (before ++ .keyword word :: behind) = some (before, behind) := by
  induction before with
  | nil => exact if_pos rfl
  | cons m before ih =>
      obtain ⟨hm, hbefore⟩ := List.ne_and_not_mem_of_not_mem_cons h
      rw [List.cons_append, splitAtKeyword?, if_neg hm.symm, ih hbefore]
      rfl

theorem splitAtKeyword?_eq_none (h : .keyword word ∉ row) : splitAtKeyword? word row = none := by
  induction row with
  | nil => rfl
  | cons m row ih =>
      obtain ⟨hm, hrow⟩ := List.ne_and_not_mem_of_not_mem_cons h
      rw [splitAtKeyword?, if_neg hm.symm, ih hrow]
      rfl

/-- What stands before the keyword does not contain it. -/
theorem splitAtKeyword?_eq_some_iff :
    splitAtKeyword? word row = some (before, behind) ↔
      row = before ++ .keyword word :: behind ∧ .keyword word ∉ before := by
  refine ⟨fun h ↦ ?_, fun ⟨hrow, hnot⟩ ↦ hrow ▸ splitAtKeyword?_append hnot behind⟩
  induction row generalizing before with
  | nil => exact nomatch h
  | cons m row ih =>
      rw [splitAtKeyword?] at h
      split at h
      · next hm =>
        obtain ⟨rfl, rfl⟩ := Prod.mk.inj (Option.some.inj h)
        exact ⟨congrArg (· :: row) hm, List.not_mem_nil⟩
      · next hm =>
        obtain ⟨⟨before', behind'⟩, hsplit, hpair⟩ := Option.map_eq_some_iff.mp h
        obtain ⟨rfl, rfl⟩ := Prod.mk.inj hpair
        obtain ⟨rfl, hnot⟩ := ih hsplit
        exact ⟨rfl, List.not_mem_cons_of_ne_of_not_mem (Ne.symm hm) hnot⟩

theorem append_keyword_inj {before' behind' : List Meaning} (h : .keyword word ∉ before)
    (h' : .keyword word ∉ before')
    (heq : before ++ .keyword word :: behind = before' ++ .keyword word :: behind') :
    before = before' ∧ behind = behind' := by
  have hsplit := splitAtKeyword?_append h behind
  rw [heq, splitAtKeyword?_append h'] at hsplit
  simpa [eq_comm] using hsplit

/-! ## Checked access -/

/-- The answer of a reader that may also ask for cards that the row does not have. -/
abbrev Checked (α : Type) : Type :=
  ExceptT CommandError Option α

namespace Position

variable {α β : Type}

def answer (r : Except CommandError α) : Checked α :=
  ExceptT.mk (some r)

/-- The card at a position, if the row has one there. -/
def card (row : List Meaning) (i : ℕ) : Checked Meaning :=
  ExceptT.lift row[i]?

/-- The cards from one position up to another, if the row has these positions in this order. -/
def slice (row : List Meaning) (start stop : ℕ) : Checked (List Meaning) :=
  ExceptT.lift (if start ≤ stop ∧ stop ≤ row.length then some ((row.take stop).drop start) else none)

/-- The position of the first card with a keyword on it. -/
def find? (word : Keyword) (row : List Meaning) : Option ℕ :=
  row.findIdx? fun m ↦ m = .keyword word

def locate (word : Keyword) (row : List Meaning) (e : CommandError) : Checked ℕ :=
  answer ((find? word row).elim (.error e) .ok)

def ofIf (row : List Meaning) : Checked Command := do
  let thenAt ← locate .thenWord row .missingThen
  let head ← slice row 1 thenAt
  let condition ← answer ((Condition.ofMeanings head).mapError .invalidCondition)
  let branches ← slice row (thenAt + 1) row.length
  match find? .elseWord branches with
  | none =>
    let onTrue ← answer (Simple.inSlot .thenBranch branches)
    return .branch condition onTrue none
  | some elseAt =>
    let first ← slice branches 0 elseAt
    let second ← slice branches (elseAt + 1) branches.length
    let onTrue ← answer (Simple.inSlot .thenBranch first)
    let onFalse ← answer (Simple.inSlot .elseBranch second)
    return .branch condition onTrue (some onFalse)

/-- The positions of the first `do` and of the first `end` after it, which must come last. -/
def locateLoop (construct : Construct) (row : List Meaning) : Checked (ℕ × ℕ) := do
  let doAt ← locate .doWord row (.missingKeyword .doWord construct)
  let behind ← slice row (doAt + 1) row.length
  let length ← locate .endWord behind (.missingKeyword .endWord construct)
  let endAt := doAt + 1 + length
  if endAt + 1 = row.length then return (doAt, endAt) else throw (.trailingCards construct)

def ofWhile (row : List Meaning) : Checked Command := do
  let (doAt, endAt) ← locateLoop .whileLoop row
  let head ← slice row 1 doAt
  let condition ← answer ((Condition.ofMeanings head).mapError .invalidCondition)
  let body ← slice row (doAt + 1) endAt
  let statement ← answer (Simple.inSlot .whileBody body)
  return .whileLoop condition statement

def ofFor (row : List Meaning) : Checked Command := do
  match ← card row 0 with
  | .forHeader count =>
    let (doAt, endAt) ← locateLoop .forLoop row
    if doAt = 1 then
      let body ← slice row (doAt + 1) endAt
      let statement ← answer (Simple.inSlot .forBody body)
      return .forLoop count statement
    else throw (.invalidStructure .doNotNext)
  | other => throw (.invalidForHeader other.text)

def atLevel (level : ℕ) (construct : Construct) (k : Checked Command) : Checked Command :=
  if level < construct.requiredLevel then throw (.levelTooLow construct level) else k

/-- Reads a row by positions.  What its first card says decides how. -/
def ofMeanings (level : ℕ) (row : List Meaning) : Checked Command :=
  match row.head? with
  | some (.keyword .ifWord) => atLevel level .ifStatement (ofIf row)
  | some (.keyword .whileWord) => atLevel level .whileLoop (ofWhile row)
  | some (.forHeader _) => atLevel level .forLoop (ofFor row)
  | _ => answer (((Simple.ofMeanings row).map .simple).mapError .invalidStructure)

/-! ## The slices are there -/

theorem answer_bind (r : Except CommandError α) (f : α → Except CommandError β) :
    answer (r >>= f) = answer r >>= fun a ↦ answer (f a) := by
  cases r <;> rfl

theorem answer_ok_bind (a : α) (f : α → Checked β) : answer (.ok a) >>= f = f a := rfl

theorem find?_cons (m : Meaning) (hm : m ≠ .keyword word) (row : List Meaning) :
    find? word (m :: row) = (find? word row).map (· + 1) := by
  rw [find?, List.findIdx?_cons, if_neg (by simpa using hm)]
  rfl

theorem lt_length_of_find? {i : ℕ} (h : find? word row = some i) : i < row.length :=
  (List.findIdx?_eq_some_iff_getElem.mp h).1

theorem splitAtKeyword?_eq_find? (word : Keyword) (row : List Meaning) :
    splitAtKeyword? word row = (find? word row).map fun i ↦ (row.take i, row.drop (i + 1)) := by
  induction row with
  | nil => rfl
  | cons m row ih =>
      rw [splitAtKeyword?]
      split
      · next hm => simp [find?, hm, List.findIdx?_cons]
      · next hm =>
        rw [find?_cons m hm, ih, Option.map_map, Option.map_map]
        rfl

theorem slice_cons (m : Meaning) (row : List Meaning) (start stop : ℕ) :
    slice (m :: row) (start + 1) (stop + 1) = slice row start stop := by
  simp [slice]

theorem slice_eq_pure {start stop : ℕ} (h : start ≤ stop) (hstop : stop ≤ row.length) :
    slice row start stop = pure ((row.drop start).take (stop - start)) := by
  rw [slice, if_pos ⟨h, hstop⟩, List.drop_take]
  rfl

theorem slice_zero {i : ℕ} (h : i ≤ row.length) : slice row 0 i = pure (row.take i) :=
  slice_eq_pure (Nat.zero_le i) h

theorem slice_length {i : ℕ} (h : i ≤ row.length) :
    slice row i row.length = pure (row.drop i) := by
  rw [slice_eq_pure h le_rfl, List.take_of_length_le (List.length_drop ..).le]

/-- The reader of a row that begins with `if` finds every slice it asks for. -/
theorem ofIf_cons (row : List Meaning) :
    ofIf (.keyword .ifWord :: row) = answer (Command.ofIf row) := by
  rw [ofIf, Command.ofIf, splitAtKeyword?_eq_find?, locate, find?_cons _ (by decide)]
  cases hthen : find? .thenWord row with
  | none => rfl
  | some i =>
      have hi := lt_length_of_find? hthen
      rw [answer_bind]
      change slice (_ :: row) (0 + 1) (i + 1) >>= _ = answer _
      rw [slice_cons, slice_zero hi.le, pure_bind, answer_bind]
      congr 1
      funext condition
      rw [List.length_cons, slice_cons, slice_length hi, pure_bind, splitAtKeyword?_eq_find?]
      cases helse : find? .elseWord (row.drop (i + 1)) with
      | none => exact (answer_bind _ _).symm
      | some j =>
          have hj := lt_length_of_find? helse
          dsimp only [Option.map_some]
          rw [slice_zero hj.le, pure_bind, slice_length hj, pure_bind, answer_bind]
          congr 1
          funext onTrue
          exact (answer_bind _ _).symm

section Loop

variable {construct : Construct} {m : Meaning} {i j : ℕ}

theorem locateLoop_of_find?_do (hm : m ≠ .keyword .doWord) (hdo : find? .doWord row = some i) :
    locateLoop construct (m :: row) =
      locate .endWord (row.drop (i + 1)) (.missingKeyword .endWord construct) >>= fun length ↦
        if i + 1 + 1 + length = row.length then pure (i + 1, i + 1 + 1 + length)
        else throw (.trailingCards construct) := by
  have hslice : slice (m :: row) (i + 1 + 1) (m :: row).length = pure (row.drop (i + 1)) := by
    rw [List.length_cons, slice_cons, slice_length (lt_length_of_find? hdo)]
  rw [locateLoop, locate, find?_cons m hm, hdo]
  change slice (m :: row) (i + 1 + 1) (m :: row).length >>= _ = _
  rw [hslice, pure_bind]
  simp only [List.length_cons, Nat.add_right_cancel_iff]

theorem splitLoop_of_find?_do (hdo : find? .doWord row = some i) :
    Command.splitLoop construct row =
      (splitAtKeyword? .endWord (row.drop (i + 1))).elim
        (.error (.missingKeyword .endWord construct)) .ok >>= fun (body, behind) ↦
          if behind.isEmpty then pure (row.take i, body)
          else .error (.trailingCards construct) := by
  rw [Command.splitLoop, splitAtKeyword?_eq_find?, hdo]
  rfl

end Loop

/-- Behind its first card, a loop is either refused in both ways of reading for the same reason, or
its `do` and its `end` are found where it is split. -/
theorem locateLoop_cons (construct : Construct) {m : Meaning} (hm : m ≠ .keyword .doWord)
    (row : List Meaning) :
    (∃ e, Command.splitLoop construct row = .error e ∧
      locateLoop construct (m :: row) = answer (.error e)) ∨
    ∃ i j, i + 1 + j + 1 = row.length ∧
      Command.splitLoop construct row = .ok (row.take i, (row.drop (i + 1)).take j) ∧
      locateLoop construct (m :: row) = answer (.ok (i + 1, i + 1 + 1 + j)) := by
  cases hdo : find? .doWord row with
  | none =>
      refine .inl ⟨.missingKeyword .doWord construct, ?_, ?_⟩
      · rw [Command.splitLoop, splitAtKeyword?_eq_find?, hdo]
        rfl
      · rw [locateLoop, locate, find?_cons m hm, hdo]
        rfl
  | some i =>
      rw [splitLoop_of_find?_do hdo, locateLoop_of_find?_do hm hdo, splitAtKeyword?_eq_find?, locate]
      cases hend : find? .endWord (row.drop (i + 1)) with
      | none => exact .inl ⟨_, rfl, rfl⟩
      | some j =>
          have hi := lt_length_of_find? hdo
          have hj := lt_length_of_find? hend
          rw [List.length_drop] at hj
          by_cases hlast : i + 1 + 1 + j = row.length
          · refine .inr ⟨i, j, by omega, ?_, ?_⟩
            · have hbehind : ((row.drop (i + 1)).drop (j + 1)).isEmpty = true := by
                rw [List.isEmpty_iff, List.drop_eq_nil_iff, List.length_drop]
                omega
              exact if_pos hbehind
            · exact if_pos hlast
          · refine .inl ⟨.trailingCards construct, ?_, ?_⟩
            · have hbehind : ¬ ((row.drop (i + 1)).drop (j + 1)).isEmpty = true := by
                rw [List.isEmpty_iff, List.drop_eq_nil_iff, List.length_drop]
                omega
              exact if_neg hbehind
            · exact if_neg hlast

/-- The slices before the `do` of a loop and between it and the `end`. -/
theorem slice_loop {m : Meaning} {i j : ℕ} (h : i + 1 + j + 1 = row.length) :
    slice (m :: row) 1 (i + 1) = pure (row.take i) ∧
      slice (m :: row) (i + 1 + 1) (i + 1 + 1 + j) = pure ((row.drop (i + 1)).take j) := by
  have hstop : i + 1 + 1 + j = i + 1 + j + 1 := by omega
  constructor
  · exact (slice_cons m row 0 i).trans (slice_zero (by omega))
  · rw [hstop, slice_cons, slice_eq_pure (by omega) (by omega), Nat.add_sub_cancel_left]

theorem ofWhile_cons (row : List Meaning) :
    ofWhile (.keyword .whileWord :: row) = answer (Command.ofWhile row) := by
  rw [ofWhile, Command.ofWhile, answer_bind]
  obtain ⟨e, hsplit, hlocate⟩ | ⟨i, j, hlength, hsplit, hlocate⟩ :=
    locateLoop_cons .whileLoop (m := .keyword .whileWord) (by decide) row
  · rw [hsplit, hlocate]
    rfl
  · obtain ⟨hhead, hbody⟩ := slice_loop (m := .keyword .whileWord) hlength
    rw [hsplit, hlocate, answer_ok_bind, answer_ok_bind]
    dsimp only
    rw [hhead, pure_bind, answer_bind]
    congr 1
    funext condition
    rw [hbody, pure_bind]
    exact (answer_bind _ _).symm

theorem ofFor_cons (count : UInt32) (row : List Meaning) :
    ofFor (.forHeader count :: row) = answer (Command.ofFor count row) := by
  have hcard : card (.forHeader count :: row) 0 = answer (.ok (.forHeader count)) := rfl
  rw [ofFor, Command.ofFor, hcard, answer_ok_bind, answer_bind]
  dsimp only
  obtain ⟨e, hsplit, hlocate⟩ | ⟨i, j, hlength, hsplit, hlocate⟩ :=
    locateLoop_cons .forLoop (m := .forHeader count) nofun row
  · rw [hsplit, hlocate]
    rfl
  · rw [hsplit, hlocate, answer_ok_bind, answer_ok_bind]
    dsimp only
    by_cases hi : i = 0
    · subst hi
      rw [if_pos rfl, List.take_zero, List.isEmpty_nil, if_pos rfl, (slice_loop hlength).2,
        pure_bind]
      exact (answer_bind _ _).symm
    · have hhead : ¬ (row.take i).isEmpty = true := by
        rw [List.isEmpty_iff, ← List.length_eq_zero_iff, List.length_take]
        omega
      rw [if_neg (by omega), if_neg hhead]
      rfl

/-- Reading by positions never asks for a card that the row does not have, and answers as the reader
does that splits. -/
theorem ofMeanings_eq_answer (level : ℕ) (row : List Meaning) :
    ofMeanings level row = answer (Command.ofMeanings level row) := by
  have hlevel : ∀ construct (k : Except CommandError Command),
      atLevel level construct (answer k) = answer (Command.atLevel level construct k) := by
    intro construct k
    rw [atLevel, Command.atLevel]
    split <;> rfl
  cases row with
  | nil => rfl
  | cons m row =>
      cases m with
      | keyword word =>
          cases word with
          | ifWord => exact (congrArg _ (ofIf_cons row)).trans (hlevel ..)
          | whileWord => exact (congrArg _ (ofWhile_cons row)).trans (hlevel ..)
          | _ => rfl
      | forHeader count => exact (congrArg _ (ofFor_cons count row)).trans (hlevel ..)
      | _ => rfl

end Position

end LessonDeck
