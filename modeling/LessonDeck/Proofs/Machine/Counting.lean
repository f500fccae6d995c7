import LessonDeck.Proofs.Command.Arithmetic
import LessonDeck.Proofs.Machine.Iteration
/-!
# What the body of a `for` loop sees

Each iteration finds the variables as the one before has left them, but for the loop variable, which
is bound to the number of the iteration whatever the body has made of it.  Up to the greatest value
the number is not clamped.
-/

namespace LessonDeck

theorem toInt_ofNat_of_le {n : ℕ} (h : (n : ℤ) ≤ Value.greatest.toInt) :
    (Int64.ofNat n).toInt = n := by
  rw [Value.toInt_greatest] at h
  apply Int64.toInt_ofNat_of_lt
  omega

theorem Value.inRange_ofNat {n : ℕ} (h : (n : ℤ) ≤ greatest.toInt) :
    InRange (Int64.ofNat n) := by
  rw [inRange_iff, toInt_ofNat_of_le h]
  refine ⟨?_, h⟩
  rw [toInt_least]
  omega

namespace Machine

variable {m : Machine} {who : Signature} {body : Simple}

/-! ## The loop variable -/

theorem vars_beginning {n : ℕ} (h : ((n + 1 : ℕ) : ℤ) ≤ Value.greatest.toInt) :
    (m.beginning who body n).vars =
      (m.counted who body n).vars.bind loopName (some (Int64.ofNat (n + 1))) := by
  rw [beginning, count, Variables.write, Option.map_some,
    Value.clamp_of_inRange (Value.inRange_ofNat h)]

theorem value?_beginning {n : ℕ} (h : ((n + 1 : ℕ) : ℤ) ≤ Value.greatest.toInt) :
    (m.beginning who body n).vars.value? loopName = some (Int64.ofNat (n + 1)) := by
  rw [vars_beginning h, Variables.value?, Variables.binding_bind, if_pos rfl]
  rfl

/-! ## Runs -/

/-- A `for` loop has counted up to a number: its body has been executed that many times, and each
time the loop variable has been bound to the number of the iteration. -/
structure CountsUp (m : Machine) (who : Signature) (body : Simple) (n : ℕ) (out : Outcome)
    (after : Machine) : Prop where
  flow : out.flow = .loop n false
  begins : ∀ j < n, (m.beginning who body j).vars =
    (m.counted who body j).vars.bind loopName (some (Int64.ofNat (j + 1)))
  ran : ∀ j < n, ∃ once, ((m.beginning who body j).execute who (.simple body)).1 = .ok once
  vars : after.vars = (m.counted who body n).vars.restore loopName (m.vars.binding loopName)
  journal : ∃ summary, after.journal = (m.counted who body n).journal.push summary
  printed : out.printed = (List.range n).flatMap fun j ↦ (m.beginning who body j).prints who body

variable {count : UInt32} {out : Outcome} {after : Machine}

theorem countsUp_of_execute (hcount : (count.toNat : ℤ) ≤ Value.greatest.toInt)
    (h : m.execute who (.forLoop count body) = (.ok out, after)) :
    m.CountsUp who body count.toNat out after := by
  obtain ⟨q, summary, hreached, hflow, hprinted, hvars, hjournal⟩ :=
    exists_reached_of_execute_forLoop h
  refine ⟨hflow, fun j hj ↦ vars_beginning ?_, hreached.ran, hreached.vars ▸ hvars,
    ⟨summary, hreached.journal ▸ hjournal⟩, hprinted.trans hreached.printed⟩
  omega

/-- A loop that fails does so in its first iteration. -/
theorem fault_of_first {fault : Fault}
    (h : (m.execute who (.forLoop count body)).1 = .error fault) :
    0 < count.toNat ∧ (m.beginning who body 0).vars = m.vars.bind loopName (some 1) ∧
      ((m.beginning who body 0).execute who (.simple body)).1 = .error fault := by
  have hfault := fault?_of_execute_error h
  rw [Command.fault?] at hfault
  split at hfault
  · next hpos =>
    have hbody : (Command.simple body).fault? (m.beginning who body 0).cap
      (m.beginning who body 0).vars = some fault := hfault
    exact ⟨hpos, vars_beginning (by decide), execute_of_fault? hbody who⟩
  · cases hfault

/-- If each iteration makes one entry, the entries of a run are those, in order. -/
theorem exists_entries_counted {n : ℕ} {told : ℕ → String × String}
    (h : ∀ j < n, ∃ e, (m.counted who body (j + 1)).journal = (m.counted who body j).journal.push e ∧
      (e.action, e.result) = told (j + 1)) :
    ∃ ran, (m.counted who body n).journal.toList = m.journal.toList ++ ran ∧
      ran.map (fun e ↦ (e.action, e.result)) = (List.range' 1 n).map told := by
  induction n with
  | zero => exact ⟨[], (List.append_nil _).symm, rfl⟩
  | succ n ih =>
      obtain ⟨ran, hran, htold⟩ := ih fun j hj ↦ h j (hj.trans n.lt_succ_self)
      obtain ⟨e, he, hlast⟩ := h n n.lt_succ_self
      refine ⟨ran ++ [e], ?_, ?_⟩
      · rw [he, Array.toList_push, hran, List.append_assoc]
      · rw [List.map_append, htold, List.range'_1_concat, List.map_append, List.map_singleton,
          List.map_singleton, hlast, Nat.add_comm 1 n]

theorem CountsUp.exists_entries {n : ℕ} (h : m.CountsUp who body n out after)
    (told : ℕ → String × String)
    (hentry : ∀ j < n, ∃ e,
      (m.counted who body (j + 1)).journal = (m.counted who body j).journal.push e ∧
      (e.action, e.result) = told (j + 1)) :
    ∃ ran summary, after.journal.toList = m.journal.toList ++ ran ++ [summary] ∧
      ran.map (fun e ↦ (e.action, e.result)) = (List.range' 1 n).map told := by
  obtain ⟨summary, hjournal⟩ := h.journal
  obtain ⟨ran, hran, htold⟩ := exists_entries_counted hentry
  exact ⟨ran, summary, by rw [hjournal, Array.toList_push, hran], htold⟩

/-! ## Bodies that read or write the loop variable -/

/-- A computation from the loop variable is one from the number of the iteration. -/
theorem exists_entry_compute {op : Arith} {c : Int64} {n : ℕ}
    (hn : ((n + 1 : ℕ) : ℤ) ≤ Value.greatest.toInt) (hc : op = .div → c ≠ 0) (x : String) :
    let body : Simple := .compute x loopName op c
    ∃ e, (m.counted who body (n + 1)).journal = (m.counted who body n).journal.push e ∧
      (e.action, e.result) = (body.text, Text.showInt (n + 1 : ℕ) ++ " " ++ op.symbol ++ " " ++
        Value.text c ++ " = " ++
        Text.showInt (Value.bounded (op.result (n + 1 : ℕ) c.toInt))) := by
  intro body
  obtain ⟨v, hv⟩ := Arith.exists_apply hc (Int64.ofNat (n + 1))
  have hread : (m.beginning who body n).vars.value? loopName = some (Int64.ofNat (n + 1)) :=
    value?_beginning hn
  obtain ⟨once, hrun⟩ := execute_compute hread hv who x
  have hresult := Arith.toInt_clamp_of_apply (Value.inRange_ofNat hn) hv
  rw [toInt_ofNat_of_le hn] at hresult
  rw [counted_succ, hrun]
  refine ⟨_, rfl, ?_⟩
  rw [Signature.entry, Value.text, Value.text, Value.text, toInt_ofNat_of_le hn, hresult]

theorem exists_entry_assign {n : ℕ} (name : String) (c : Int64) :
    let body : Simple := .assign name c
    ∃ e, (m.counted who body (n + 1)).journal = (m.counted who body n).journal.push e ∧
      (e.action, e.result) = (body.text, name ++ " → " ++ Value.text (Value.clamp c)) := by
  intro body
  obtain ⟨once, hrun⟩ := execute_assign (m.beginning who body n) who name c
  rw [counted_succ, hrun]
  exact ⟨_, rfl, rfl⟩

theorem CountsUp.printed_print {n : ℕ} (hn : (n : ℤ) ≤ Value.greatest.toInt)
    (h : m.CountsUp who (.print loopName) n out after) :
    out.printed = (List.range' 1 n).map fun j ↦ ⟨loopName, Int64.ofNat j⟩ := by
  have honce : ∀ j ∈ List.range n, (m.beginning who (.print loopName) j).prints who
      (.print loopName) = [⟨loopName, Int64.ofNat (1 + j)⟩] := by
    intro j hj
    have hlt := List.mem_range.mp hj
    have hvalue : (m.beginning who (.print loopName) j).vars.value? loopName =
        some (Int64.ofNat (j + 1)) := value?_beginning (by omega)
    rw [prints_eq_toPrint, Simple.toPrint, hvalue, Nat.add_comm]
    rfl
  rw [h.printed, List.flatMap_congr honce, ← List.map_eq_flatMap, List.range'_eq_map_range,
    List.map_map]
  rfl

/-- In each iteration the body of a `for` loop finds the variables as the iteration before has left
them, but for the loop variable, which is bound to the number of the iteration.  So a loop that
prints it prints the numbers up to the count; one that computes from it enters the results for these
numbers, even if it writes them to the loop variable; one that sets it goes round just as often. -/
theorem body_sees_counter (m : Machine) (who : Signature) (count : UInt32)
    (hcount : (count.toNat : ℤ) ≤ Value.greatest.toInt) :
    (∀ body out after, m.execute who (.forLoop count body) = (.ok out, after) →
      m.CountsUp who body count.toNat out after) ∧
    (∀ body fault, (m.execute who (.forLoop count body)).1 = .error fault →
      0 < count.toNat ∧ (m.beginning who body 0).vars = m.vars.bind loopName (some 1) ∧
        ((m.beginning who body 0).execute who (.simple body)).1 = .error fault) ∧
    (∃ out after, m.execute who (.forLoop count (.print loopName)) = (.ok out, after) ∧
      out.printed = (List.range' 1 count.toNat).map fun j ↦ ⟨loopName, Int64.ofNat j⟩) ∧
    (∀ x op c, (op = .div → c ≠ 0) →
      let body : Simple := .compute x loopName op c
      ∃ out after, m.execute who (.forLoop count body) = (.ok out, after) ∧
        ∃ ran summary, after.journal.toList = m.journal.toList ++ ran ++ [summary] ∧
          ran.map (fun e ↦ (e.action, e.result)) = (List.range' 1 count.toNat).map fun (j : ℕ) ↦
            (body.text, Text.showInt j ++ " " ++ op.symbol ++ " " ++ Value.text c ++ " = " ++
              Text.showInt (Value.bounded (op.result j c.toInt)))) ∧
    ∀ c, let body : Simple := .assign loopName c
      ∃ out after, m.execute who (.forLoop count body) = (.ok out, after) ∧
        out.flow = .loop count.toNat false ∧
        ∃ ran summary, after.journal.toList = m.journal.toList ++ ran ++ [summary] ∧
          ran.map (fun e ↦ (e.action, e.result)) = List.replicate count.toNat
            (body.text, loopName ++ " → " ++ Value.text (Value.clamp c)) := by
  have hfirst : (m.count 1).vars.value? loopName = some (Value.clamp 1) := by
    rw [Machine.count, Variables.value?_write, if_pos rfl]
    rfl
  refine ⟨fun _ _ _ h ↦ countsUp_of_execute hcount h, fun _ _ h ↦ fault_of_first h, ?_, ?_, ?_⟩
  · obtain ⟨out, after, hrun⟩ := exists_execute_forLoop who count (Simple.fault?_print hfirst)
    have hcounts := countsUp_of_execute hcount hrun
    exact ⟨out, after, hrun, hcounts.printed_print hcount⟩
  · intro x op c hc body
    obtain ⟨out, after, hrun⟩ := exists_execute_forLoop who count (Simple.fault?_compute hfirst hc x)
    refine ⟨out, after, hrun, (countsUp_of_execute hcount hrun).exists_entries _ fun j hj ↦ ?_⟩
    apply exists_entry_compute _ hc
    omega
  · intro c body
    have hnever : body.fault? (m.count 1).vars = none := rfl
    obtain ⟨out, after, hrun⟩ := exists_execute_forLoop who count hnever
    have hcounts := countsUp_of_execute hcount hrun
    obtain ⟨ran, summary, hjournal, htold⟩ :=
      hcounts.exists_entries (fun _ ↦ (body.text, loopName ++ " → " ++ Value.text (Value.clamp c)))
        fun _ _ ↦ exists_entry_assign loopName c
    rw [List.map_const', List.length_range'] at htold
    exact ⟨out, after, hrun, hcounts.flow, ran, summary, hjournal, htold⟩

/-- The body halves the loop variable. -/
theorem body_sees_counter_halved :
    let m := new defaultCap
    let body : Simple := .compute loopName loopName .div (-2)
    ∃ out after, m.execute (.once "g1" .epoch) (.forLoop 3 body) = (.ok out, after) ∧
      ∃ ran summary, after.journal.toList = ran ++ [summary] ∧
        ran.map Entry.result = ["1 / -2 = 0", "2 / -2 = -1", "3 / -2 = -1"] := by
  intro m body
  have hcount : ((3 : UInt32).toNat : ℤ) ≤ Value.greatest.toInt := by decide
  obtain ⟨-, -, -, hcompute, -⟩ := body_sees_counter m (.once "g1" .epoch) 3 hcount
  obtain ⟨out, after, hrun, ran, summary, hjournal, htold⟩ :=
    hcompute loopName .div (-2) (fun _ ↦ by decide)
  refine ⟨out, after, hrun, ran, summary, hjournal, ?_⟩
  have hresults := congrArg (List.map Prod.snd) htold
  rw [List.map_map, List.map_map] at hresults
  exact hresults.trans (by decide)

end Machine

end LessonDeck
