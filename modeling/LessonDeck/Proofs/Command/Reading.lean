import LessonDeck.Proofs.Command.Grammar
import LessonDeck.Proofs.Result
/-!
# What is read as a command

Looking for keywords finds the derivation of a row if there is one, and nothing else: what stands
before a first keyword has to be a condition or a statement, and these have no keywords in them.  So
cards form a command at a level exactly if each of them says something and what they say together has
a derivation.
-/

namespace LessonDeck

namespace Grammar

variable {level : ℕ} {row : List Meaning}

theorem inSlot_statementRow (slot : Slot) (s : Statement) :
    Simple.inSlot slot s.row = .ok s.simple :=
  mapError_eq_ok_iff.mpr s.ofMeanings_row

theorem exists_statement_of_inSlot {slot : Slot} {s : Simple}
    (h : Simple.inSlot slot row = .ok s) : ∃ d : Statement, d.row = row ∧ d.simple = s :=
  exists_statement_of_ofMeanings (mapError_eq_ok_iff.mp h)

/-! ## What has a derivation is read by it -/

theorem ofIf_ifThen (c : Condition) (s : Statement) :
    Command.ofIf (conditionRow c ++ .keyword .thenWord :: s.row) =
      .ok (.branch c s.simple none) := by
  rw [Command.ofIf, splitAtKeyword?_append (keyword_notMem_conditionRow .thenWord c)]
  simp only [Option.elim_some, bind, Except.bind, ofMeanings_conditionRow, Except.mapError,
    splitAtKeyword?_eq_none (keyword_notMem_statementRow .elseWord s), inSlot_statementRow]
  rfl

theorem ofIf_ifThenElse (c : Condition) (s t : Statement) :
    Command.ofIf
        (conditionRow c ++ .keyword .thenWord :: (s.row ++ .keyword .elseWord :: t.row)) =
      .ok (.branch c s.simple (some t.simple)) := by
  rw [Command.ofIf, splitAtKeyword?_append (keyword_notMem_conditionRow .thenWord c)]
  simp only [Option.elim_some, bind, Except.bind, ofMeanings_conditionRow, Except.mapError,
    splitAtKeyword?_append (keyword_notMem_statementRow .elseWord s), inSlot_statementRow]
  rfl

theorem splitLoop_append (construct : Construct) {head : List Meaning}
    (hhead : .keyword .doWord ∉ head) (s : Statement) :
    Command.splitLoop construct
        (head ++ .keyword .doWord :: (s.row ++ [.keyword .endWord])) = .ok (head, s.row) := by
  rw [Command.splitLoop, splitAtKeyword?_append hhead]
  simp only [Option.elim_some, bind, Except.bind,
    splitAtKeyword?_append (keyword_notMem_statementRow .endWord s)]
  rfl

theorem ofWhile_whileDo (c : Condition) (s : Statement) :
    Command.ofWhile
        (conditionRow c ++ .keyword .doWord :: (s.row ++ [.keyword .endWord])) =
      .ok (.whileLoop c s.simple) := by
  rw [Command.ofWhile, splitLoop_append _ (keyword_notMem_conditionRow .doWord c)]
  simp only [bind, Except.bind, ofMeanings_conditionRow, Except.mapError, inSlot_statementRow]
  rfl

theorem ofFor_forDo (count : UInt32) (s : Statement) :
    Command.ofFor count (.keyword .doWord :: (s.row ++ [.keyword .endWord])) =
      .ok (.forLoop count s.simple) := by
  have hnone : Meaning.keyword .doWord ∉ [] := List.not_mem_nil
  have hsplit := splitLoop_append .forLoop hnone s
  rw [List.nil_append] at hsplit
  rw [Command.ofFor, hsplit]
  simp only [bind, Except.bind, List.isEmpty_nil, if_true, inSlot_statementRow]
  rfl

theorem atLevel_of_le {construct : Construct} (h : construct.requiredLevel ≤ level)
    (k : Except CommandError Command) : Command.atLevel level construct k = k :=
  if_neg (Nat.not_lt.mpr h)

theorem Derivation.ofMeanings_row {d : Derivation} (h : d.level ≤ level) :
    Command.ofMeanings level d.row = .ok d.command := by
  cases d with
  | statement s =>
      cases s with
      | print name => rfl
      | assign target literal => cases target <;> rfl
      | compute target left op right => cases target <;> rfl
  | ifThen c s => exact (atLevel_of_le h _).trans (ofIf_ifThen c s)
  | ifThenElse c s t => exact (atLevel_of_le h _).trans (ofIf_ifThenElse c s t)
  | whileDo c s => exact (atLevel_of_le h _).trans (ofWhile_whileDo c s)
  | forDo count s => exact (atLevel_of_le h _).trans (ofFor_forDo count s)

/-! ## What is read has a derivation -/

theorem exists_derivation_of_ofIf {c : Command} (h : Command.ofIf row = .ok c) :
    ∃ d : Derivation, d.level = 2 ∧ d.row = .keyword .ifWord :: row ∧ d.command = c := by
  rw [Command.ofIf] at h
  obtain ⟨⟨head, branches⟩, hthen, hrest⟩ := exists_of_bind_eq_ok h
  obtain ⟨condition, hcondition, hbranches⟩ := exists_of_bind_eq_ok hrest
  obtain ⟨rfl, -⟩ := splitAtKeyword?_eq_some_iff.mp (elim_eq_ok_iff.mp hthen)
  obtain rfl := eq_conditionRow_of_ofMeanings (mapError_eq_ok_iff.mp hcondition)
  cases helse : splitAtKeyword? .elseWord branches with
  | none =>
      rw [helse] at hbranches
      obtain ⟨onTrue, htrue, hcommand⟩ := exists_of_bind_eq_ok hbranches
      obtain ⟨s, rfl, rfl⟩ := exists_statement_of_inSlot htrue
      exact ⟨.ifThen condition s, rfl, rfl, Except.ok.inj hcommand⟩
  | some parts =>
      obtain ⟨first, second⟩ := parts
      rw [helse] at hbranches
      obtain ⟨onTrue, htrue, hsecond⟩ := exists_of_bind_eq_ok hbranches
      obtain ⟨onFalse, hfalse, hcommand⟩ := exists_of_bind_eq_ok hsecond
      obtain ⟨rfl, -⟩ := splitAtKeyword?_eq_some_iff.mp helse
      obtain ⟨s, rfl, rfl⟩ := exists_statement_of_inSlot htrue
      obtain ⟨t, rfl, rfl⟩ := exists_statement_of_inSlot hfalse
      exact ⟨.ifThenElse condition s t, rfl, rfl, Except.ok.inj hcommand⟩

theorem eq_append_of_splitLoop {construct : Construct} {head body : List Meaning}
    (h : Command.splitLoop construct row = .ok (head, body)) :
    row = head ++ .keyword .doWord :: (body ++ [.keyword .endWord]) := by
  rw [Command.splitLoop] at h
  obtain ⟨⟨head', rest⟩, hdo, hrest⟩ := exists_of_bind_eq_ok h
  obtain ⟨⟨body', behind⟩, hend, hlast⟩ := exists_of_bind_eq_ok hrest
  obtain ⟨rfl, -⟩ := splitAtKeyword?_eq_some_iff.mp (elim_eq_ok_iff.mp hdo)
  obtain ⟨rfl, -⟩ := splitAtKeyword?_eq_some_iff.mp (elim_eq_ok_iff.mp hend)
  dsimp only at hlast
  split at hlast
  · next hbehind =>
    obtain rfl := List.isEmpty_iff.mp hbehind
    obtain ⟨rfl, rfl⟩ := Prod.mk.inj (Except.ok.inj hlast)
    rfl
  · cases hlast

theorem exists_derivation_of_ofWhile {c : Command} (h : Command.ofWhile row = .ok c) :
    ∃ d : Derivation, d.level = 3 ∧ d.row = .keyword .whileWord :: row ∧ d.command = c := by
  rw [Command.ofWhile] at h
  obtain ⟨⟨head, body⟩, hsplit, hrest⟩ := exists_of_bind_eq_ok h
  obtain ⟨condition, hcondition, hbody⟩ := exists_of_bind_eq_ok hrest
  obtain ⟨statement, hstatement, hcommand⟩ := exists_of_bind_eq_ok hbody
  obtain rfl := eq_append_of_splitLoop hsplit
  obtain rfl := eq_conditionRow_of_ofMeanings (mapError_eq_ok_iff.mp hcondition)
  obtain ⟨s, rfl, rfl⟩ := exists_statement_of_inSlot hstatement
  exact ⟨.whileDo condition s, rfl, rfl, Except.ok.inj hcommand⟩

theorem exists_derivation_of_ofFor {count : UInt32} {c : Command}
    (h : Command.ofFor count row = .ok c) :
    ∃ d : Derivation, d.level = 4 ∧ d.row = .forHeader count :: row ∧ d.command = c := by
  rw [Command.ofFor] at h
  obtain ⟨⟨head, body⟩, hsplit, hrest⟩ := exists_of_bind_eq_ok h
  obtain rfl := eq_append_of_splitLoop hsplit
  dsimp only at hrest
  split at hrest
  · next hhead =>
    obtain rfl := List.isEmpty_iff.mp hhead
    obtain ⟨statement, hstatement, hcommand⟩ := exists_of_bind_eq_ok hrest
    obtain ⟨s, rfl, rfl⟩ := exists_statement_of_inSlot hstatement
    exact ⟨.forDo count s, rfl, rfl, Except.ok.inj hcommand⟩
  · cases hrest

theorem of_atLevel_eq_ok {construct : Construct} {k : Except CommandError Command} {c : Command}
    (h : Command.atLevel level construct k = .ok c) :
    construct.requiredLevel ≤ level ∧ k = .ok c := by
  rw [Command.atLevel] at h
  split at h
  · cases h
  · next hlevel => exact ⟨Nat.not_lt.mp hlevel, h⟩

theorem exists_derivation_of_simple {c : Command} (hlevel : 1 ≤ level)
    (h : ((Simple.ofMeanings row).map Command.simple).mapError CommandError.invalidStructure =
      .ok c) :
    ∃ d : Derivation, d.level ≤ level ∧ d.row = row ∧ d.command = c := by
  obtain ⟨statement, hstatement, rfl⟩ := map_eq_ok_iff.mp (mapError_eq_ok_iff.mp h)
  obtain ⟨s, rfl, rfl⟩ := exists_statement_of_ofMeanings hstatement
  exact ⟨.statement s, hlevel, rfl, rfl⟩

theorem exists_derivation_of_ofMeanings {c : Command} (hlevel : 1 ≤ level)
    (h : Command.ofMeanings level row = .ok c) :
    ∃ d : Derivation, d.level ≤ level ∧ d.row = row ∧ d.command = c := by
  cases row with
  | nil => exact exists_derivation_of_simple hlevel h
  | cons m row =>
      cases m with
      | keyword word =>
          cases word with
          | ifWord =>
              obtain ⟨hrequired, hif⟩ := of_atLevel_eq_ok h
              obtain ⟨d, hd, hrow, hcommand⟩ := exists_derivation_of_ofIf hif
              exact ⟨d, hd.trans_le hrequired, hrow, hcommand⟩
          | whileWord =>
              obtain ⟨hrequired, hwhile⟩ := of_atLevel_eq_ok h
              obtain ⟨d, hd, hrow, hcommand⟩ := exists_derivation_of_ofWhile hwhile
              exact ⟨d, hd.trans_le hrequired, hrow, hcommand⟩
          | _ => exact exists_derivation_of_simple hlevel h
      | forHeader count =>
          obtain ⟨hrequired, hfor⟩ := of_atLevel_eq_ok h
          obtain ⟨d, hd, hrow, hcommand⟩ := exists_derivation_of_ofFor hfor
          exact ⟨d, hd.trans_le hrequired, hrow, hcommand⟩
      | _ => exact exists_derivation_of_simple hlevel h

end Grammar

/-! ## Cards -/

/-- What is printed on a card, without the blanks around it. -/
def Card.text (card : Card) : String :=
  String.ofList (Text.trim card.value.toList)

/-- What a card says, at whatever place it lies. -/
def Card.Means (card : Card) (m : Meaning) : Prop :=
  ∀ place, Token.read card place = .ok ⟨m, place, card.text⟩

/-- The place of a card matters only for the reason why it cannot be read. -/
theorem Meaning.read_eq_ok_of_read {kind : CardKind} {text : List Char} {place : ℕ} {m : Meaning}
    (h : read kind text place = .ok m) (other : ℕ) : read kind text other = .ok m := by
  cases kind with
  | forLoop => exact h
  | logical => exact h
  | _ => exact mapError_eq_ok_iff.mpr (mapError_eq_ok_iff.mp h)

theorem Card.means_of_read {card : Card} {place : ℕ} {token : Token}
    (h : Token.read card place = .ok token) :
    card.Means token.meaning ∧ token.text = card.text := by
  obtain ⟨m, hm, rfl⟩ := map_eq_ok_iff.mp h
  exact ⟨fun other ↦ map_eq_ok_iff.mpr ⟨m, Meaning.read_eq_ok_of_read hm other, rfl⟩, rfl⟩

theorem Card.Means.eq {card : Card} {m m' : Meaning} (h : card.Means m) (h' : card.Means m') :
    m = m' := by
  have heq := (h 0).symm.trans (h' 0)
  exact congrArg Token.meaning (Except.ok.inj heq)

theorem Card.row_eq_of_means {cards : List Card} {row row' : List Meaning}
    (h : List.Forall₂ Card.Means cards row) (h' : List.Forall₂ Card.Means cards row') :
    row = row' := by
  induction h generalizing row' with
  | nil => exact (List.forall₂_nil_left_iff.mp h').symm
  | cons hm _ ih =>
      obtain ⟨m', rest', hm', hrest', rfl⟩ := List.forall₂_cons_left_iff.mp h'
      rw [hm.eq hm', ih hrest']

namespace Token

theorem readFrom_of_means {cards : List Card} {row : List Meaning}
    (h : List.Forall₂ Card.Means cards row) (place : ℕ) :
    ∃ tokens, readFrom place cards = .ok tokens ∧ tokens.map meaning = row ∧
      tokens.map text = cards.map Card.text := by
  induction h generalizing place with
  | nil => exact ⟨[], rfl, rfl, rfl⟩
  | @cons card m cards row hm _ ih =>
      obtain ⟨tokens, hread, hrow, htext⟩ := ih (place + 1)
      refine ⟨⟨m, place, card.text⟩ :: tokens, ?_, ?_, ?_⟩
      · rw [readFrom, hm place, hread]
        rfl
      · rw [List.map_cons, hrow]
      · rw [List.map_cons, List.map_cons, htext]

theorem means_of_readFrom {cards : List Card} {place : ℕ} {tokens : List Token}
    (h : readFrom place cards = .ok tokens) :
    List.Forall₂ Card.Means cards (tokens.map meaning) ∧
      tokens.map text = cards.map Card.text := by
  induction cards generalizing place tokens with
  | nil =>
      obtain rfl := Except.ok.inj h
      exact ⟨.nil, rfl⟩
  | cons card cards ih =>
      rw [readFrom] at h
      cases hcard : read card place with
      | error e =>
          rw [hcard] at h
          exact nomatch h
      | ok token =>
          rw [hcard] at h
          obtain ⟨rest, hrest, rfl⟩ := map_eq_ok_iff.mp h
          obtain ⟨hmeans, htext⟩ := ih hrest
          obtain ⟨hm, hm'⟩ := Card.means_of_read hcard
          exact ⟨.cons hm hmeans, by rw [List.map_cons, List.map_cons, hm', htext]⟩

end Token

namespace ParsedCommand

open Grammar

/-- The command by a derivation, under the text of the cards. -/
def ofDerivation (d : Derivation) (cards : List Card) : ParsedCommand :=
  ⟨d.command, " ".intercalate (cards.map Card.text)⟩

theorem isLevel_iff {level : ℕ} : isLevel level = true ↔ 1 ≤ level ∧ level ≤ 4 := by
  rw [isLevel, Bool.and_eq_true, decide_eq_true_iff, decide_eq_true_iff]
  rfl

theorem ofCards_of_means {level : ℕ} (hlevel : 1 ≤ level ∧ level ≤ 4) {cards : List Card}
    {d : Derivation} (hd : d.level ≤ level) (h : List.Forall₂ Card.Means cards d.row) :
    ofCards level cards = .ok (ofDerivation d cards) := by
  obtain ⟨tokens, hread, hrow, htext⟩ := Token.readFrom_of_means h 0
  have hcards : ¬ cards.isEmpty = true := by
    intro hempty
    rw [List.isEmpty_iff.mp hempty] at h
    exact d.row_ne_nil (List.forall₂_nil_left_iff.mp h)
  rw [ofCards, if_neg hcards, if_pos (isLevel_iff.mpr hlevel), Token.readAll, hread]
  change (Command.ofMeanings level (tokens.map Token.meaning) >>= _) = _
  rw [hrow, Derivation.ofMeanings_row hd, htext]
  rfl

theorem exists_derivation_of_ofCards {level : ℕ} {cards : List Card} {parsed : ParsedCommand}
    (h : ofCards level cards = .ok parsed) :
    (1 ≤ level ∧ level ≤ 4) ∧ ∃ d : Derivation, d.level ≤ level ∧
      List.Forall₂ Card.Means cards d.row ∧ parsed = ofDerivation d cards := by
  rw [ofCards] at h
  split at h
  · exact nomatch h
  · split at h
    · next hlevel =>
      obtain ⟨tokens, hread, hrest⟩ := exists_of_bind_eq_ok h
      obtain ⟨command, hcommand, hparsed⟩ := exists_of_bind_eq_ok hrest
      obtain ⟨hmeans, htext⟩ := Token.means_of_readFrom hread
      have hlevels := isLevel_iff.mp hlevel
      obtain ⟨d, hd, hrow, rfl⟩ := exists_derivation_of_ofMeanings hlevels.1 hcommand
      refine ⟨hlevels, d, hd, hrow ▸ hmeans, ?_⟩
      rw [← Except.ok.inj hparsed, htext]
      rfl
    · exact nomatch h

/-- At a level from one to four, cards form a command exactly if each of them says something and
what they say together has a derivation by the rules of the level.  There is one such derivation;
the command is the one it denotes, and its text is the texts of the cards, joined by single blanks.
What is accepted at one level is accepted as the same at the higher ones.  And taking a row apart at
the positions of its keywords never asks for a card that is not there. -/
theorem ofCards_eq_ok_iff_existsUnique_derivation (level : ℕ) (cards : List Card) :
    (∀ parsed, ofCards level cards = .ok parsed ↔ (1 ≤ level ∧ level ≤ 4) ∧
      ∃! d : Derivation, d.level ≤ level ∧ List.Forall₂ Card.Means cards d.row ∧
        parsed = ⟨d.command, " ".intercalate (cards.map Card.text)⟩) ∧
    (∀ higher parsed, level ≤ higher → higher ≤ 4 →
      ofCards level cards = .ok parsed → ofCards higher cards = .ok parsed) ∧
    ∀ row, Position.ofMeanings level row = Position.answer (Command.ofMeanings level row) := by
  refine ⟨fun parsed ↦ ⟨fun h ↦ ?_, ?_⟩, fun higher parsed hle hhigher h ↦ ?_,
    Position.ofMeanings_eq_answer level⟩
  · obtain ⟨hlevel, d, hd, hmeans, hparsed⟩ := exists_derivation_of_ofCards h
    refine ⟨hlevel, d, ⟨hd, hmeans, hparsed⟩, ?_⟩
    rintro d' ⟨-, hmeans', -⟩
    exact Derivation.row_injective (Card.row_eq_of_means hmeans' hmeans)
  · rintro ⟨hlevel, d, ⟨hd, hmeans, rfl⟩, -⟩
    exact ofCards_of_means hlevel hd hmeans
  · obtain ⟨hlevel, d, hd, hmeans, rfl⟩ := exists_derivation_of_ofCards h
    exact ofCards_of_means ⟨hlevel.1.trans hle, hhigher⟩ (hd.trans hle) hmeans

/-- An `if` of level two, with an equals sign on a card of its own and blanks around some values. -/
theorem ofCards_eq_ok_iff_existsUnique_derivation_branch :
    let cards : List Card := [.deal .conditional "if", .deal .varref " then ", .deal .compare "<",
      .deal .number "+5", .deal .conditional " then", .deal .assign "x", .deal .operator "=",
      .deal .number "-2", .deal .conditional "else", .deal .print "print"]
    let command : Command := .branch ⟨"then", .less, 5⟩ (.assign "x" (-2)) (some (.print "score"))
    (∃! d : Derivation, d.level ≤ 2 ∧ List.Forall₂ Card.Means cards d.row ∧
      (⟨command, "if then < +5 then x = -2 else print"⟩ : ParsedCommand) =
        ⟨d.command, " ".intercalate (cards.map Card.text)⟩) ∧
      ofCards 4 cards = .ok ⟨command, "if then < +5 then x = -2 else print"⟩ := by
  intro cards command
  have hread : ofCards 2 cards = .ok ⟨command, "if then < +5 then x = -2 else print"⟩ := by
    decide +kernel
  obtain ⟨hderivation, hhigher, -⟩ := ofCards_eq_ok_iff_existsUnique_derivation 2 cards
  exact ⟨((hderivation _).mp hread).2, hhigher 4 _ (by decide) (by decide) hread⟩

end ParsedCommand

end LessonDeck
