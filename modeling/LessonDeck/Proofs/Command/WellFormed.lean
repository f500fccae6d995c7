import LessonDeck.Proofs.Command.Reading
import LessonDeck.Proofs.Value
/-!
# Well-formed commands

A command is well formed if its names, its literals and its count can stand on cards.  Whatever a
card says can stand on a card, so that every command that is read is well formed.
-/

namespace LessonDeck

/-! ## What can stand on cards -/

def IsVariable (name : String) : Prop :=
  Text.isName name.toList = true

instance : DecidablePred IsVariable :=
  fun name ↦ inferInstanceAs (Decidable (Text.isName name.toList = true))

def Meaning.WellFormed : Meaning → Prop
  | number n => Value.InRange n
  | target name _ => IsVariable name
  | varref name => IsVariable name
  | print name => IsVariable name
  | forHeader count => count.toNat ≤ maxForCount
  | _ => True

def Simple.WellFormed : Simple → Prop
  | assign name literal => IsVariable name ∧ Value.InRange literal
  | compute name left _ right => IsVariable name ∧ IsVariable left ∧ Value.InRange right
  | print name => IsVariable name

def Condition.WellFormed (c : Condition) : Prop :=
  IsVariable c.name ∧ Value.InRange c.literal

/-- The names are names of variables, the literals are in the range of values, and nothing is counted
further than loops go. -/
def Command.WellFormed : Command → Prop
  | simple s => s.WellFormed
  | branch c onTrue none => c.WellFormed ∧ onTrue.WellFormed
  | branch c onTrue (some onFalse) => c.WellFormed ∧ onTrue.WellFormed ∧ onFalse.WellFormed
  | whileLoop c body => c.WellFormed ∧ body.WellFormed
  | forLoop count body => count.toNat ≤ maxForCount ∧ body.WellFormed

instance (s : Simple) : Decidable s.WellFormed :=
  match s with
  | .assign _ _ => inferInstanceAs (Decidable (_ ∧ _))
  | .compute _ _ _ _ => inferInstanceAs (Decidable (_ ∧ _ ∧ _))
  | .print name => inferInstanceAs (Decidable (IsVariable name))

instance (c : Condition) : Decidable c.WellFormed :=
  inferInstanceAs (Decidable (_ ∧ _))

instance (c : Command) : Decidable c.WellFormed :=
  match c with
  | .simple s => inferInstanceAs (Decidable s.WellFormed)
  | .branch _ _ none => inferInstanceAs (Decidable (_ ∧ _))
  | .branch _ _ (some _) => inferInstanceAs (Decidable (_ ∧ _ ∧ _))
  | .whileLoop _ _ => inferInstanceAs (Decidable (_ ∧ _))
  | .forLoop _ _ => inferInstanceAs (Decidable (_ ∧ _))

/-! ## What is read can stand on cards -/

namespace Meaning

theorem wellFormed_of_nameOf {text : List Char} {name : String} (h : nameOf text = .ok name) :
    IsVariable name := by
  rw [nameOf] at h
  split at h
  · next hname =>
    obtain rfl := Except.ok.inj h
    rwa [IsVariable, String.toList_ofList]
  · exact nomatch h

theorem wellFormed_of_ofNumber {text : List Char} {m : Meaning} (h : ofNumber text = .ok m) :
    m.WellFormed := by
  rw [ofNumber] at h
  split at h
  · exact Except.ok.inj h ▸ Value.inRange_clamp _
  · exact Except.ok.inj h ▸ Value.inRange_clamp _
  · exact Except.ok.inj h ▸ Value.inRange_clamp _
  · exact nomatch h

theorem wellFormed_of_ofOperator {text : List Char} {m : Meaning} (h : ofOperator text = .ok m) :
    m.WellFormed := by
  rw [ofOperator] at h
  split at h
  · exact Except.ok.inj h ▸ trivial
  · split at h
    · exact Except.ok.inj h ▸ trivial
    · exact nomatch h

theorem wellFormed_of_ofAssign {text : List Char} {m : Meaning} (h : ofAssign text = .ok m) :
    m.WellFormed := by
  rw [ofAssign] at h
  split at h
  · exact Except.ok.inj h ▸ trivial
  · split at h
    · obtain ⟨name, hname, rfl⟩ := map_eq_ok_iff.mp h
      exact wellFormed_of_nameOf hname
    · obtain ⟨name, hname, rfl⟩ := map_eq_ok_iff.mp h
      exact wellFormed_of_nameOf hname

theorem wellFormed_of_ofPrint {text : List Char} {m : Meaning} (h : ofPrint text = .ok m) :
    m.WellFormed := by
  rw [ofPrint] at h
  split at h
  · obtain ⟨name, hname, rfl⟩ := map_eq_ok_iff.mp h
    exact wellFormed_of_nameOf hname
  · obtain rfl := Except.ok.inj h
    have hscore : IsVariable defaultPrintName := by decide +kernel
    exact hscore

theorem wellFormed_of_ofCompare {text : List Char} {m : Meaning} (h : ofCompare text = .ok m) :
    m.WellFormed := by
  rw [ofCompare] at h
  split at h
  · exact Except.ok.inj h ▸ trivial
  · exact nomatch h

theorem wellFormed_of_ofKeyword {text : List Char} {m : Meaning} (h : ofKeyword text = .ok m) :
    m.WellFormed := by
  rw [ofKeyword] at h
  split at h
  · exact Except.ok.inj h ▸ trivial
  · exact nomatch h

theorem toNat_le_of_forCount? {text : List Char} {count : UInt32}
    (h : forCount? text = some count) : count.toNat ≤ maxForCount := by
  rw [forCount?] at h
  split at h
  · split at h
    · next n _ =>
      split at h
      · next hle =>
        obtain rfl := Option.some.inj h
        have hsmall : n < UInt32.size := hle.trans_lt (by decide)
        rwa [UInt32.toNat_ofNat_of_lt' hsmall]
      · exact nomatch h
    · exact nomatch h
  · exact nomatch h

theorem wellFormed_of_ofFor {text : List Char} {m : Meaning} (h : ofFor text = .ok m) :
    m.WellFormed := by
  rw [ofFor] at h
  split at h
  · exact Except.ok.inj h ▸ trivial
  · split at h
    · next count hcount =>
      obtain rfl := Except.ok.inj h
      exact toNat_le_of_forCount? hcount
    · exact nomatch h

theorem wellFormed_of_read {kind : CardKind} {text : List Char} {place : ℕ} {m : Meaning}
    (h : read kind text place = .ok m) : m.WellFormed := by
  cases kind with
  | number => exact wellFormed_of_ofNumber (mapError_eq_ok_iff.mp h)
  | operator => exact wellFormed_of_ofOperator (mapError_eq_ok_iff.mp h)
  | assign => exact wellFormed_of_ofAssign (mapError_eq_ok_iff.mp h)
  | varref =>
      obtain ⟨name, hname, rfl⟩ := map_eq_ok_iff.mp (mapError_eq_ok_iff.mp h)
      exact wellFormed_of_nameOf hname
  | print => exact wellFormed_of_ofPrint (mapError_eq_ok_iff.mp h)
  | compare => exact wellFormed_of_ofCompare (mapError_eq_ok_iff.mp h)
  | conditional => exact wellFormed_of_ofKeyword (mapError_eq_ok_iff.mp h)
  | loop => exact wellFormed_of_ofKeyword (mapError_eq_ok_iff.mp h)
  | forLoop => exact wellFormed_of_ofFor h
  | logical => exact Except.ok.inj h ▸ trivial

end Meaning

theorem Card.Means.wellFormed {card : Card} {m : Meaning} (h : card.Means m) : m.WellFormed := by
  obtain ⟨m', hread, htoken⟩ := map_eq_ok_iff.mp (h 0)
  obtain rfl := congrArg Token.meaning htoken
  exact Meaning.wellFormed_of_read hread

theorem Card.wellFormed_of_means {cards : List Card} {row : List Meaning}
    (h : List.Forall₂ Means cards row) : ∀ m ∈ row, m.WellFormed := by
  induction h with
  | nil => exact fun m hm ↦ nomatch hm
  | cons hm _ ih => exact List.forall_mem_cons.mpr ⟨hm.wellFormed, ih⟩

namespace Grammar

theorem Target.isVariable_name {t : Target} (h : ∀ m ∈ t.row, m.WellFormed) :
    IsVariable t.name := by
  cases t with
  | embedded name => exact h (.target name true) List.mem_cons_self
  | apart name => exact h (.target name false) List.mem_cons_self

theorem Statement.wellFormed_simple {s : Statement} (h : ∀ m ∈ s.row, m.WellFormed) :
    s.simple.WellFormed := by
  cases s with
  | print name => exact h (.print name) List.mem_cons_self
  | assign target literal =>
      obtain ⟨htarget, hvalue⟩ := List.forall_mem_append.mp h
      exact ⟨target.isVariable_name htarget, hvalue (.number literal) List.mem_cons_self⟩
  | compute target left op right =>
      obtain ⟨htarget, hvalue⟩ := List.forall_mem_append.mp h
      obtain ⟨hleft, hrest⟩ := List.forall_mem_cons.mp hvalue
      obtain ⟨-, hright⟩ := List.forall_mem_cons.mp hrest
      exact ⟨target.isVariable_name htarget, hleft, hright (.number right) List.mem_cons_self⟩

theorem wellFormed_of_conditionRow {c : Condition} (h : ∀ m ∈ conditionRow c, m.WellFormed) :
    c.WellFormed := by
  obtain ⟨hname, hrest⟩ := List.forall_mem_cons.mp h
  obtain ⟨-, hliteral⟩ := List.forall_mem_cons.mp hrest
  exact ⟨hname, hliteral (.number c.literal) List.mem_cons_self⟩

theorem Derivation.wellFormed_command {d : Derivation} (h : ∀ m ∈ d.row, m.WellFormed) :
    d.command.WellFormed := by
  cases d with
  | statement s => exact s.wellFormed_simple h
  | ifThen c s =>
      obtain ⟨hc, hs⟩ := List.forall_mem_append.mp (List.forall_mem_cons.mp h).2
      exact ⟨wellFormed_of_conditionRow hc, s.wellFormed_simple (List.forall_mem_cons.mp hs).2⟩
  | ifThenElse c s t =>
      obtain ⟨hc, hbranches⟩ := List.forall_mem_append.mp (List.forall_mem_cons.mp h).2
      obtain ⟨hs, ht⟩ := List.forall_mem_append.mp (List.forall_mem_cons.mp hbranches).2
      exact ⟨wellFormed_of_conditionRow hc, s.wellFormed_simple hs,
        t.wellFormed_simple (List.forall_mem_cons.mp ht).2⟩
  | whileDo c s =>
      obtain ⟨hc, hbody⟩ := List.forall_mem_append.mp (List.forall_mem_cons.mp h).2
      obtain ⟨hs, -⟩ := List.forall_mem_append.mp (List.forall_mem_cons.mp hbody).2
      exact ⟨wellFormed_of_conditionRow hc, s.wellFormed_simple hs⟩
  | forDo count s =>
      obtain ⟨hcount, hbody⟩ := List.forall_mem_cons.mp h
      obtain ⟨hs, -⟩ := List.forall_mem_append.mp (List.forall_mem_cons.mp hbody).2
      exact ⟨hcount, s.wellFormed_simple hs⟩

end Grammar

end LessonDeck
