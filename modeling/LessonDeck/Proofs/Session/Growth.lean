import LessonDeck.Proofs.Command.RoundTrip
import LessonDeck.Proofs.Machine.Chronicle
import LessonDeck.Proofs.Session.Reachable
/-!
# How the journal grows

A command that runs to its end adds its chronicle to the journal and nothing else.  No row of cards
makes more entries than the longest `for` loop: a `while` loop ends at the cap long before.
-/

namespace LessonDeck

namespace Session

/-- What a submission adds to the journal: nothing if the cards form no command, and else what the
command adds. -/
theorem exists_own_of_submit (s : Session) (who : Signature) (cards : List Card) :
    ∃ own, (s.submit who cards).2.journal.toList = s.journal.toList ++ own ∧
      (own = [] ∨ ∃ parsed, s.check cards = .ok parsed ∧
        ((∃ flow, parsed.command.Chronicle who s.machine.cap s.journal.size s.vars flow own) ∨
          ∃ vars fault, own = [who.entry s.journal.size vars .error parsed.command.text
            ("Error: " ++ Fault.message fault)])) := by
  rw [submit]
  split
  · exact ⟨[], (List.append_nil _).symm, .inl rfl⟩
  · next parsed hparsed =>
    obtain ⟨own, hjournal, hown⟩ := s.machine.exists_own_of_execute who parsed.command
    exact ⟨own, hjournal, .inr ⟨parsed, hparsed, hown⟩⟩

/-- A command that does not fail leaves the journal as it was but for its chronicle at the end, all
of it by the one who gave the command.  With the usual cap no submission adds more entries than a
`for` loop can make. -/
theorem journal_grows_by_chronicle :
    (∀ (m after : Machine) (who : Signature) (command : Command) (out : Outcome),
      m.execute who command = (.ok out, after) →
      ∃ own, after.journal.toList = m.journal.toList ++ own ∧ (∀ e ∈ own, e.actor = who.actor) ∧
        command.Chronicle who m.cap m.journal.size m.vars out.flow own) ∧
    ∀ (s : Session) (who : Signature) (cards : List Card), s.machine.cap = defaultCap →
      ∃ own, (s.submit who cards).2.journal.toList = s.journal.toList ++ own ∧
        own.length ≤ maxForCount + 1 := by
  constructor
  · intro m after who command out h
    obtain ⟨own, hjournal, hown⟩ := Machine.chronicle_of_execute h
    exact ⟨own, hjournal, fun e he ↦ (hown.signed he).1, hown⟩
  · intro s who cards hcap
    obtain ⟨own, hjournal, hown⟩ := s.exists_own_of_submit who cards
    refine ⟨own, hjournal, ?_⟩
    obtain rfl | ⟨parsed, hparsed, ⟨flow, hchronicle⟩ | ⟨vars, fault, rfl⟩⟩ := hown
    · exact Nat.zero_le _
    · have hlength := hchronicle.length_le (ParsedCommand.wellFormed_of_ofCards hparsed)
      have hloops : max (defaultCap + 2) (maxForCount + 1) = maxForCount + 1 := by decide
      rwa [hcap, hloops] at hlength
    · exact Nat.le_add_left 1 maxForCount

/-- A `while` loop that is stopped after two iterations, under a clock that shows another second for
each entry, and a `for` loop that is submitted. -/
theorem journal_grows_by_chronicle_stoppedLoop :
    let m : Machine := { Machine.new 2 with vars := Variables.fresh.write "x" (some 0) }
    let who : Signature := ⟨"g1", fun number ↦ ⟨number, 0⟩⟩
    let command : Command := .whileLoop ⟨"x", .less, 9⟩ (.compute "x" "x" .add 1)
    let s : Session := ⟨4, Machine.new defaultCap, .adaptive (.ofSettings .standard), .ofSeed 7 0,
      .ofSeed 7 1⟩
    let cards : List Card := [.deal .forLoop "for i = 1 to 2", .deal .loop "do",
      .deal .assign "x =", .deal .number "5", .deal .loop "end"]
    (∃ out after, m.execute who command = (.ok out, after) ∧
      out.flow = .loop 2 true ∧ ∃ own, after.journal.toList = m.journal.toList ++ own ∧
        (∀ e ∈ own, e.actor = "g1") ∧
        own.map Entry.time = [⟨0, 0⟩, ⟨1, 0⟩, ⟨2, 0⟩, ⟨3, 0⟩] ∧
        own.map Entry.kind = [.info, .info, .info, .warning] ∧
        own.map Entry.result = ["0 + 1 = 1", "1 + 1 = 2", "2 iterations",
          "while loop stopped after 2 iterations"]) ∧
    ∃ own, (s.submit who cards).2.journal.toList = s.journal.toList ++ own ∧
      own.length ≤ 1001 := by
  intro m who command s cards
  refine ⟨?_, journal_grows_by_chronicle.2 s who cards rfl⟩
  obtain ⟨out, after, hrun, hflow, htimes, hkinds, hresults⟩ : ∃ out after,
      m.execute who command = (.ok out, after) ∧ out.flow = .loop 2 true ∧
        after.journal.toList.map Entry.time = [⟨0, 0⟩, ⟨1, 0⟩, ⟨2, 0⟩, ⟨3, 0⟩] ∧
        after.journal.toList.map Entry.kind = [.info, .info, .info, .warning] ∧
        after.journal.toList.map Entry.result = ["0 + 1 = 1", "1 + 1 = 2", "2 iterations",
          "while loop stopped after 2 iterations"] :=
    ⟨_, _, rfl, rfl, rfl, rfl, by decide +kernel⟩
  obtain ⟨own, hjournal, hactor, -⟩ := journal_grows_by_chronicle.1 _ _ _ _ _ hrun
  have hown : after.journal.toList = own := hjournal
  exact ⟨out, after, hrun, hflow, own, hjournal, hactor, hown ▸ htimes, hown ▸ hkinds,
    hown ▸ hresults⟩

end Session

end LessonDeck
