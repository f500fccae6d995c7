import LessonDeck.Proofs.Command.Deal
/-!
# Commands and their cards

The commands that some cards form are the well-formed ones.  The canonical cards of a well-formed
command form that command again, under its written form, at every level that admits it.
-/

namespace LessonDeck

open Grammar

/-! ## What canonical cards say together -/

namespace Simple

theorem shows_deal {s : Simple} (h : s.WellFormed) :
    List.Forall₂ Card.Shows s.deal s.canonical.row := by
  cases s with
  | assign name literal =>
      obtain ⟨hname, hliteral⟩ := h
      exact .cons (Card.shows_ofTarget hname) (.cons (Card.shows_ofNumber hliteral) .nil)
  | compute name left op right =>
      obtain ⟨hname, hleft, hright⟩ := h
      exact .cons (Card.shows_ofTarget hname) (.cons (Card.shows_ofVariable hleft)
        (.cons (Card.shows_ofArith op) (.cons (Card.shows_ofNumber hright) .nil)))
  | print name => exact .cons (Card.shows_ofPrint h) .nil

end Simple

theorem Condition.shows_deal {c : Condition} (h : c.WellFormed) :
    List.Forall₂ Card.Shows c.deal (conditionRow c) :=
  .cons (Card.shows_ofVariable h.1) (.cons (Card.shows_ofComparison c.op)
    (.cons (Card.shows_ofNumber h.2) .nil))

theorem Command.shows_deal {c : Command} (h : c.WellFormed) :
    List.Forall₂ Card.Shows c.deal c.canonical.row := by
  cases c with
  | simple s => exact Simple.shows_deal h
  | branch c onTrue onFalse =>
      cases onFalse with
      | none =>
          obtain ⟨hc, htrue⟩ := h
          have hthen := List.Forall₂.cons (Card.shows_ofKeyword .thenWord) (Simple.shows_deal htrue)
          exact .cons (Card.shows_ofKeyword .ifWord)
            (List.rel_append (Condition.shows_deal hc) hthen)
      | some onFalse =>
          obtain ⟨hc, htrue, hfalse⟩ := h
          have helse := List.Forall₂.cons (Card.shows_ofKeyword .elseWord)
            (Simple.shows_deal hfalse)
          have hthen := List.Forall₂.cons (Card.shows_ofKeyword .thenWord)
            (List.rel_append (Simple.shows_deal htrue) helse)
          exact .cons (Card.shows_ofKeyword .ifWord)
            (List.rel_append (Condition.shows_deal hc) hthen)
  | whileLoop c body =>
      obtain ⟨hc, hbody⟩ := h
      have hdo := List.Forall₂.cons (Card.shows_ofKeyword .doWord)
        (List.rel_append (Simple.shows_deal hbody) (.cons (Card.shows_ofKeyword .endWord) .nil))
      exact .cons (Card.shows_ofKeyword .whileWord)
        (List.rel_append (Condition.shows_deal hc) hdo)
  | forLoop count body =>
      obtain ⟨hcount, hbody⟩ := h
      have hend := List.rel_append (Simple.shows_deal hbody)
        (.cons (Card.shows_ofKeyword .endWord) .nil)
      exact .cons (Card.shows_ofCount hcount) (.cons (Card.shows_ofKeyword .doWord) hend)

theorem Card.map_text_of_shows {cards : List Card} {row : List Meaning}
    (h : List.Forall₂ Shows cards row) : cards.map text = cards.map value := by
  induction h with
  | nil => rfl
  | cons hcard _ ih => rw [List.map_cons, List.map_cons, hcard.2, ih]

/-! ## The written form -/

/-- The values of a row of cards, joined by single blanks. -/
def Card.printed (cards : List Card) : String :=
  " ".intercalate (cards.map value)

theorem Card.printed_append {front back : List Card} (hfront : front ≠ []) (hback : back ≠ []) :
    printed (front ++ back) = printed front ++ " " ++ printed back := by
  rw [printed, List.map_append,
    String.intercalate_append_of_ne_nil (by simpa using hfront) (by simpa using hback)]
  rfl

theorem Card.printed_cons {card : Card} {cards : List Card} (h : cards ≠ []) :
    printed (card :: cards) = card.value ++ " " ++ printed cards := by
  rw [printed, List.map_cons, String.intercalate_cons_of_ne_nil (by simpa using h)]
  rfl

theorem Card.printed_append_cons {front back : List Card} {card : Card} (hfront : front ≠ [])
    (hback : back ≠ []) :
    printed (front ++ card :: back) =
      printed front ++ " " ++ card.value ++ " " ++ printed back := by
  rw [printed_append hfront (List.cons_ne_nil card back), printed_cons hback]
  simp only [String.append_assoc]

theorem Card.printed_concat {front : List Card} (hfront : front ≠ []) (card : Card) :
    printed (front ++ [card]) = printed front ++ " " ++ card.value := by
  rw [printed_append hfront (List.cons_ne_nil card [])]
  rfl

theorem Simple.deal_ne_nil (s : Simple) : s.deal ≠ [] := by
  cases s <;> exact List.cons_ne_nil _ _

theorem Condition.deal_ne_nil (c : Condition) : c.deal ≠ [] :=
  List.cons_ne_nil _ _

theorem Simple.printed_deal (s : Simple) : Card.printed s.deal = s.text := by
  rw [← String.toList_inj]
  cases s with
  | assign name literal => simp [Card.printed, deal, text, Card.ofTarget, Card.ofNumber, Card.deal]
  | compute name left op right =>
      simp [Card.printed, deal, text, Card.ofTarget, Card.ofVariable, Card.ofArith, Card.ofNumber,
        Card.deal]
  | print name => simp [Card.printed, deal, text, Card.ofPrint, Card.deal]

theorem Condition.printed_deal (c : Condition) : Card.printed c.deal = c.text := by
  rw [← String.toList_inj]
  simp [Card.printed, deal, text, Card.ofVariable, Card.ofComparison, Card.ofNumber, Card.deal]

theorem Command.printed_deal (c : Command) : Card.printed c.deal = c.text := by
  cases c with
  | simple s => exact s.printed_deal
  | branch c onTrue onFalse =>
      cases onFalse with
      | none =>
          rw [deal, Card.printed_cons (by simp),
            Card.printed_append_cons c.deal_ne_nil onTrue.deal_ne_nil, c.printed_deal,
            onTrue.printed_deal, ← String.toList_inj]
          simp [text, Card.ofKeyword, Keyword.name, Card.deal]
      | some onFalse =>
          rw [deal, Card.printed_cons (by simp), Card.printed_append_cons c.deal_ne_nil (by simp),
            Card.printed_append_cons onTrue.deal_ne_nil onFalse.deal_ne_nil, c.printed_deal,
            onTrue.printed_deal, onFalse.printed_deal, ← String.toList_inj]
          simp [text, Card.ofKeyword, Keyword.name, Card.deal]
  | whileLoop c body =>
      rw [deal, Card.printed_cons (by simp), Card.printed_append_cons c.deal_ne_nil (by simp),
        Card.printed_concat body.deal_ne_nil, c.printed_deal, body.printed_deal,
        ← String.toList_inj]
      simp [text, Card.ofKeyword, Keyword.name, Card.deal]
  | forLoop count body =>
      rw [deal, Card.printed_cons (by simp), Card.printed_cons (by simp),
        Card.printed_concat body.deal_ne_nil, body.printed_deal, ← String.toList_inj]
      simp [text, Card.ofKeyword, Card.ofCount, Keyword.name, Card.deal]

namespace ParsedCommand

theorem wellFormed_of_ofCards {level : ℕ} {cards : List Card} {parsed : ParsedCommand}
    (h : ofCards level cards = .ok parsed) : parsed.command.WellFormed := by
  obtain ⟨-, d, -, hmeans, rfl⟩ := exists_derivation_of_ofCards h
  exact d.wellFormed_command (Card.wellFormed_of_means hmeans)

theorem ofCards_deal {c : Command} (h : c.WellFormed) {level : ℕ} (hlevel : c.level ≤ level)
    (hmax : level ≤ 4) : ofCards level c.deal = .ok ⟨c, c.text⟩ := by
  have hshows := Command.shows_deal h
  have hmeans := hshows.imp fun card m hcard ↦ hcard.1
  have hmin : 1 ≤ c.level := by cases c <;> simp [Command.level]
  have hcanonical : c.canonical.level ≤ level := c.level_canonical.trans_le hlevel
  rw [ofCards_of_means ⟨hmin.trans hlevel, hmax⟩ hcanonical hmeans, ofDerivation,
    c.command_canonical, Card.map_text_of_shows hshows, ← Card.printed, c.printed_deal]

theorem level_le_of_ofCards_deal {c : Command} (h : c.WellFormed) {level : ℕ}
    {parsed : ParsedCommand} (hparsed : ofCards level c.deal = .ok parsed) :
    c.level ≤ level ∧ level ≤ 4 := by
  obtain ⟨hlevel, d, hd, hmeans, -⟩ := exists_derivation_of_ofCards hparsed
  -- The level is that of some derivation of the same cards, and there is but one.
  have hcanonical := (Command.shows_deal h).imp fun card m hcard ↦ hcard.1
  obtain rfl := Derivation.row_injective (Card.row_eq_of_means hcanonical hmeans)
  exact ⟨c.level_canonical.symm.trans_le hd, hlevel.2⟩

/-- A command is formed by some cards at some level exactly if it is well formed.  Its canonical
cards then form it, under its written form, at the levels that admit it and at no others. -/
theorem exists_ofCards_iff_wellFormed (c : Command) :
    ((∃ level cards text, ofCards level cards = .ok ⟨c, text⟩) ↔ c.WellFormed) ∧
    (c.WellFormed → ∀ level,
      ofCards level c.deal = .ok ⟨c, c.text⟩ ↔ c.level ≤ level ∧ level ≤ 4) := by
  have hround (h : c.WellFormed) (level : ℕ) :
      ofCards level c.deal = .ok ⟨c, c.text⟩ ↔ c.level ≤ level ∧ level ≤ 4 :=
    ⟨level_le_of_ofCards_deal h, fun ⟨hlevel, hmax⟩ ↦ ofCards_deal h hlevel hmax⟩
  have hmax : c.level ≤ 4 := by cases c <;> simp [Command.level]
  refine ⟨⟨?_, fun h ↦ ⟨4, c.deal, c.text, (hround h 4).mpr ⟨hmax, le_rfl⟩⟩⟩, hround⟩
  rintro ⟨level, cards, text, hcards⟩
  exact wellFormed_of_ofCards hcards

/-- A loop as long as loops get, over names that are a keyword and not ASCII, with the least
literal. -/
theorem exists_ofCards_iff_wellFormed_forLoop :
    let c : Command := .forLoop 1000 (.compute "end" "Größe_²" .mul (-1000000000))
    c.deal.map Card.value = ["for i = 1 to 1000", "do", "end =", "Größe_²", "*", "-1000000000",
      "end"] ∧
    ofCards 4 c.deal = .ok ⟨c, "for i = 1 to 1000 do end = Größe_² * -1000000000 end"⟩ := by
  intro c
  have hwell : c.WellFormed := by decide +kernel
  have htext : c.text = "for i = 1 to 1000 do end = Größe_² * -1000000000 end" := by
    decide +kernel
  have hround := ((exists_ofCards_iff_wellFormed c).2 hwell 4).mpr ⟨by decide, by decide⟩
  rw [htext] at hround
  exact ⟨by decide +kernel, hround⟩

end ParsedCommand

end LessonDeck
