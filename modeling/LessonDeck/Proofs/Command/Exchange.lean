import LessonDeck.Command.Json
import LessonDeck.Proofs.Json.Shape
/-!
# Cards and commands in exchange

Cards, statements and commands are found again in the JSON values that they are written as, and these
come back from their texts.  A simple statement needs no mark that it stands for a command.
-/

namespace LessonDeck

open Json

/-! ## What is written of each part is found again -/

theorem CardKind.choice?_name (k : CardKind) : (string k.name).choice? ofName? = some k := by
  cases k <;> rfl

theorem Color.ofJson?_toJson (c : Color) : ofJson? c.toJson = some c := by
  cases c <;> rfl

theorem Card.ofJson?_toJson (c : Card) : ofJson? c.toJson = some c := by
  simp [ofJson?, toJson, fields?, readAll?, onlyMember?, text?, CardKind.choice?_name,
    Color.ofJson?_toJson]

theorem Arith.keptChoice?_symbol (op : Arith) :
    (string op.symbol).keptChoice? ofSymbol? = some op := by
  cases op <;> rfl

theorem Comparison.keptChoice?_symbol (op : Comparison) :
    (string op.symbol).keptChoice? ofSymbol? = some op := by
  cases op <;> rfl

theorem int64?_int64Json (n : Int64) : (int64Json n).int64? = some n :=
  int64?_int n

theorem Condition.ofJson?_toJson (c : Condition) : ofJson? c.toJson = some c := by
  simp [ofJson?, toJson, fields?, readAll?, onlyMember?, text?, Comparison.keptChoice?_symbol,
    int64?_int64Json]

/-- The form of a statement, and the record without it. -/
theorem Simple.tagged?_toJson (s : Simple) :
    ∃ form body, s.toJson.tagged? "type" = some (string form, body) ∧
      Simple.ofForm? form body = some s ∧ form ≠ "if" ∧ form ≠ "while" ∧ form ≠ "for" := by
  cases s with
  | assign name n =>
      refine ⟨"assignment", _, rfl, ?_, by decide, by decide, by decide⟩
      simp [ofForm?, fields?, readAll?, onlyMember?, text?, int64?_int64Json]
  | compute name left op n =>
      refine ⟨"expression", _, rfl, ?_, by decide, by decide, by decide⟩
      simp [ofForm?, fields?, readAll?, onlyMember?, text?, int64?_int64Json,
        Arith.keptChoice?_symbol]
  | print name =>
      refine ⟨"print", _, rfl, ?_, by decide, by decide, by decide⟩
      simp [ofForm?, fields?, readAll?, onlyMember?, text?]

theorem Simple.ofInner?_toJson (s : Simple) : ofInner? s.toJson = some s := by
  obtain ⟨form, body, htag, hform, -⟩ := s.tagged?_toJson
  rw [ofInner?, htag]
  exact hform

theorem Simple.fits_toJson (s : Simple) : s.toJson.fits maxDepth = true := by
  cases s <;> rfl

theorem Simple.ofJson?_toJson (s : Simple) : ofJson? s.toJson = some s := by
  obtain ⟨form, body, htag, hform, -⟩ := s.tagged?_toJson
  rw [ofJson?, if_pos s.fits_toJson, htag]
  exact hform

theorem Simple.nullable?_ofOption (s : Option Simple) :
    (Json.ofOption toJson s).nullable? ofInner? = some s := by
  cases s with
  | none => rfl
  | some s =>
      have hinner := s.ofInner?_toJson
      cases s <;> exact congrArg (Option.map some) hinner

theorem Command.fits_toJson (c : Command) : c.toJson.fits maxDepth = true := by
  cases c with
  | simple s => exact s.fits_toJson
  | branch condition onTrue onFalse =>
      cases onFalse with
      | none => cases onTrue <;> rfl
      | some onFalse => cases onTrue <;> cases onFalse <;> rfl
  | whileLoop condition body => cases body <;> rfl
  | forLoop count body => cases body <;> rfl

theorem Command.ofJson?_toJson (c : Command) : ofJson? c.toJson = some c := by
  rw [ofJson?, if_pos c.fits_toJson]
  cases c with
  | simple s =>
      obtain ⟨form, body, htag, hform, hif, hwhile, hfor⟩ := s.tagged?_toJson
      rw [toJson, htag]
      simp [ofForm?, hif, hwhile, hfor, hform]
  | branch condition onTrue onFalse =>
      simp [toJson, tagged?, onlyMember?, ofForm?, fields?, readAll?, Condition.ofJson?_toJson,
        Simple.ofInner?_toJson, Simple.nullable?_ofOption]
  | whileLoop condition body =>
      simp [toJson, tagged?, onlyMember?, ofForm?, fields?, readAll?, Condition.ofJson?_toJson,
        Simple.ofInner?_toJson]
  | forLoop count body =>
      simp [toJson, tagged?, onlyMember?, ofForm?, fields?, readAll?,
        natOfBits?_nat count.toNat_lt, Simple.ofInner?_toJson]

/-! ## What is written comes back from its text -/

theorem Card.reread_toJson (c : Card) : c.toJson.reread = c.toJson :=
  rfl

theorem reread_int64Json (n : Int64) : (int64Json n).reread = int64Json n :=
  reread_int64 n

theorem Condition.reread_toJson (c : Condition) : c.toJson.reread = c.toJson := by
  simp [toJson, reread, rereadMembers, reread_int64Json]

theorem Simple.reread_toJson (s : Simple) : s.toJson.reread = s.toJson := by
  cases s <;> simp [toJson, reread, rereadMembers, reread_int64Json]

theorem Simple.reread_ofOption (s : Option Simple) :
    (Json.ofOption toJson s).reread = Json.ofOption toJson s := by
  cases s with
  | none => rfl
  | some s => exact s.reread_toJson

theorem Command.reread_toJson (c : Command) : c.toJson.reread = c.toJson := by
  cases c with
  | simple s => exact s.reread_toJson
  | branch condition onTrue onFalse =>
      simp [toJson, reread, rereadMembers, Condition.reread_toJson, Simple.reread_toJson,
        Simple.reread_ofOption]
  | whileLoop condition body =>
      simp [toJson, reread, rereadMembers, Condition.reread_toJson, Simple.reread_toJson]
  | forLoop count body =>
      have hcount : count.toNat < 2 ^ 64 := count.toNat_lt.trans (by decide)
      simp [toJson, reread, rereadMembers, reread_nat hcount, Simple.reread_toJson]

/-- Cards, statements and commands come back from their texts in both layouts as they were.  A simple
statement by itself and the command that consists of it have the same record and the same written
form, so that the one can be read as the other. -/
theorem reads_back_what_is_written :
    (∀ c : Card, Card.ofText? c.toJson.compact = some c ∧ Card.ofText? c.toJson.pretty = some c) ∧
    (∀ s : Simple, Simple.ofText? s.toJson.compact = some s ∧
      Simple.ofText? s.toJson.pretty = some s) ∧
    (∀ c : Command, Command.ofText? c.toJson.compact = some c ∧
      Command.ofText? c.toJson.pretty = some c) ∧
    (∀ s : Simple, (Command.simple s).toJson.compact = s.toJson.compact ∧
      (Command.simple s).toJson.pretty = s.toJson.pretty ∧ (Command.simple s).text = s.text ∧
      Command.ofText? s.toJson.compact = some (.simple s) ∧
      Command.ofText? s.toJson.pretty = some (.simple s)) := by
  have hcommand : ∀ c : Command, Command.ofText? c.toJson.compact = some c ∧
      Command.ofText? c.toJson.pretty = some c := by
    intro c
    rw [Command.ofText?, Command.ofText?, parse?_compact, parse?_pretty, c.reread_toJson]
    exact ⟨c.ofJson?_toJson, c.ofJson?_toJson⟩
  refine ⟨fun c ↦ ?_, fun s ↦ ?_, hcommand, fun s ↦ ⟨rfl, rfl, rfl, hcommand (.simple s)⟩⟩
  · rw [Card.ofText?, Card.ofText?, parse?_compact, parse?_pretty, c.reread_toJson]
    exact ⟨c.ofJson?_toJson, c.ofJson?_toJson⟩
  · rw [Simple.ofText?, Simple.ofText?, parse?_compact, parse?_pretty, s.reread_toJson]
    exact ⟨s.ofJson?_toJson, s.ofJson?_toJson⟩

end LessonDeck
