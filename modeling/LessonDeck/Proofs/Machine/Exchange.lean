import LessonDeck.Machine.Json
import LessonDeck.Proofs.Command.Exchange
import LessonDeck.Proofs.Time.Instant
import LessonDeck.Proofs.Variables
/-!
# Variables and journals in exchange

Variables are written as an object and a journal as a list of records.  Both come back from their
texts as they were, the times of the entries as far as they are times of the clock.
-/

namespace LessonDeck

open Json

/-! ## Variables -/

namespace Variables

/-- A table is put together again from its own bindings. -/
theorem ofList_entries (vars : Variables) : ofList vars.entries = vars := by
  refine ext_binding fun name ↦ ?_
  rw [ofList, binding_foldl_bind vars.entries vars.ascending, binding_empty, Option.or_none]
  rfl

theorem ofJson?_toJson (vars : Variables) : ofJson? vars.toJson = some vars := by
  have hheld : ∀ held : Option Int64,
      (Json.ofOption int64Json held).nullable? int64? = some held := by
    intro held
    cases held with
    | none => rfl
    | some n => exact congrArg (Option.map some) (int64?_int64Json n)
  rw [ofJson?, toJson, table?_map (fun _ ↦ rfl) hheld, Option.map_some, ofList_entries]

theorem reread_toJson (vars : Variables) : vars.toJson.reread = vars.toJson := by
  rw [toJson, reread]
  congr 1
  induction vars.entries with
  | nil => rfl
  | cons b entries ih =>
      have hheld : (Json.ofOption int64Json b.2).reread = Json.ofOption int64Json b.2 := by
        cases b.2 with
        | none => rfl
        | some n => exact reread_int64Json n
      rw [List.map_cons, rereadMembers, hheld, ih]

end Variables

/-! ## Journals -/

theorem Instant.ofJson?_toJson {t : Instant} (h : t.OnClock) : ofJson? t.toJson = some t := by
  rw [ofJson?, toJson, text?, Option.bind_some]
  exact ofText?_text h

theorem EntryKind.choice?_name (k : EntryKind) : (string k.name).choice? ofName? = some k := by
  cases k <;> rfl

theorem Entry.ofJson?_toJson {e : Entry} (h : e.time.OnClock) : ofJson? e.toJson = some e := by
  simp [ofJson?, toJson, fields?, readAll?, onlyMember?, text?, Instant.ofJson?_toJson h,
    Variables.ofJson?_toJson, EntryKind.choice?_name]

theorem Entry.reread_toJson (e : Entry) : e.toJson.reread = e.toJson := by
  simp [toJson, reread, rereadMembers, Variables.reread_toJson, Instant.toJson]

theorem journalOfJson?_journalJson {journal : Array Entry}
    (h : ∀ e ∈ journal.toList, e.time.OnClock) :
    journalOfJson? (journalJson journal) = some journal := by
  have hread : readAll? Entry.ofJson? (journal.toList.map Entry.toJson) =
      some (journal.toList.map id) :=
    readAll?_map fun e he ↦ Entry.ofJson?_toJson (h e he)
  rw [journalOfJson?, journalJson, items?, hread, List.map_id]
  rfl

theorem reread_journalJson (journal : Array Entry) :
    (journalJson journal).reread = journalJson journal := by
  rw [journalJson, reread, rereadItems_eq_map, List.map_map]
  congr 2
  funext e
  exact e.reread_toJson

end LessonDeck
