import LessonDeck.Proofs.Command.Position
/-!
# The grammar of commands

A derivation says by which rules a row of meanings is a command: each rule lays out its parts in
order, and control structures ask for a level.  No row has two derivations, and a row is read as a
command exactly if it has one.  The reader looks for keywords instead of following the rules; it can,
because neither a condition nor a statement has a keyword in it.
-/

namespace LessonDeck

namespace Grammar

/-- The left side of an assignment, its equals sign on the same card or on one of its own. -/
inductive Target where
  | embedded (name : String)
  | apart (name : String)

/-- A statement without control flow. -/
inductive Statement where
  | print (name : String)
  | assign (target : Target) (literal : Int64)
  | compute (target : Target) (left : String) (op : Arith) (right : Int64)

inductive Derivation where
  | statement (s : Statement)
  | ifThen (c : Condition) (onTrue : Statement)
  | ifThenElse (c : Condition) (onTrue onFalse : Statement)
  | whileDo (c : Condition) (body : Statement)
  | forDo (count : UInt32) (body : Statement)

/-! ## What is laid out -/

def Target.row : Target → List Meaning
  | embedded name => [.target name true]
  | apart name => [.target name false, .equals]

def Statement.row : Statement → List Meaning
  | print name => [.print name]
  | assign target literal => target.row ++ [.number literal]
  | compute target left op right => target.row ++ [.varref left, .operator op, .number right]

def conditionRow (c : Condition) : List Meaning :=
  [.varref c.name, .compare c.op, .number c.literal]

def Derivation.row : Derivation → List Meaning
  | statement s => s.row
  | ifThen c onTrue =>
    .keyword .ifWord :: (conditionRow c ++ .keyword .thenWord :: onTrue.row)
  | ifThenElse c onTrue onFalse =>
    .keyword .ifWord ::
      (conditionRow c ++ .keyword .thenWord :: (onTrue.row ++ .keyword .elseWord :: onFalse.row))
  | whileDo c body =>
    .keyword .whileWord ::
      (conditionRow c ++ .keyword .doWord :: (body.row ++ [.keyword .endWord]))
  | forDo count body =>
    .forHeader count :: .keyword .doWord :: (body.row ++ [.keyword .endWord])

/-! ## What is meant by it -/

def Target.name : Target → String
  | embedded name => name
  | apart name => name

def Statement.simple : Statement → Simple
  | print name => .print name
  | assign target literal => .assign target.name literal
  | compute target left op right => .compute target.name left op right

def Derivation.command : Derivation → Command
  | statement s => .simple s.simple
  | ifThen c onTrue => .branch c onTrue.simple none
  | ifThenElse c onTrue onFalse => .branch c onTrue.simple (some onFalse.simple)
  | whileDo c body => .whileLoop c body.simple
  | forDo count body => .forLoop count body.simple

/-- The lowest level that has the rule. -/
def Derivation.level : Derivation → ℕ
  | statement _ => 1
  | ifThen _ _ => 2
  | ifThenElse _ _ _ => 2
  | whileDo _ _ => 3
  | forDo _ _ => 4

/-! ## Keywords stand between the parts only -/

theorem keyword_notMem_conditionRow (word : Keyword) (c : Condition) :
    .keyword word ∉ conditionRow c := by
  simp [conditionRow]

theorem keyword_notMem_statementRow (word : Keyword) (s : Statement) :
    .keyword word ∉ s.row := by
  cases s with
  | print name => simp [Statement.row]
  | assign target literal => cases target <;> simp [Statement.row, Target.row]
  | compute target left op right => cases target <;> simp [Statement.row, Target.row]

theorem Statement.row_ne_nil (s : Statement) : s.row ≠ [] := by
  cases s <;> simp [Statement.row]

theorem Derivation.row_ne_nil (d : Derivation) : d.row ≠ [] := by
  cases d with
  | statement s => exact s.row_ne_nil
  | _ => exact List.cons_ne_nil _ _

/-! ## No row has two derivations -/

theorem conditionRow_append_inj {c c' : Condition} {row row' : List Meaning}
    (h : conditionRow c ++ row = conditionRow c' ++ row') : c = c' ∧ row = row' := by
  cases c
  cases c'
  simpa [conditionRow, and_assoc] using h

theorem Target.row_append_inj {t t' : Target} {row row' : List Meaning}
    (h : t.row ++ row = t'.row ++ row') : t = t' ∧ row = row' := by
  cases t with
  | embedded name =>
      cases t' with
      | embedded name' => simpa [Target.row] using h
      | apart name' => simp [Target.row] at h
  | apart name =>
      cases t' with
      | embedded name' => simp [Target.row] at h
      | apart name' => simpa [Target.row] using h

theorem Target.row_append_ne_print (t : Target) (row : List Meaning) (name : String) :
    t.row ++ row ≠ [.print name] := by
  cases t <;> simp [Target.row]

theorem Statement.row_injective {s s' : Statement} (h : s.row = s'.row) : s = s' := by
  cases s with
  | print name =>
      cases s' with
      | print name' => simpa [row] using h
      | assign t' n' => exact (t'.row_append_ne_print _ name h.symm).elim
      | compute t' left' op' n' => exact (t'.row_append_ne_print _ name h.symm).elim
  | assign t n =>
      cases s' with
      | print name' => exact (t.row_append_ne_print _ name' h).elim
      | assign t' n' =>
          obtain ⟨rfl, hvalue⟩ := Target.row_append_inj h
          simpa using hvalue
      | compute t' left' op' n' => simpa using (Target.row_append_inj h).2
  | compute t left op n =>
      cases s' with
      | print name' => exact (t.row_append_ne_print _ name' h).elim
      | assign t' n' => simpa using (Target.row_append_inj h).2
      | compute t' left' op' n' =>
          obtain ⟨rfl, hvalue⟩ := Target.row_append_inj h
          simpa using hvalue

/-- A row with a keyword in it is no statement. -/
theorem Statement.row_ne {row : List Meaning} (word : Keyword) (h : .keyword word ∈ row)
    (s : Statement) : s.row ≠ row := by
  rintro rfl
  exact keyword_notMem_statementRow word s h

/-- What follows the condition of a control structure tells the condition from what follows. -/
theorem ifThenElse_row_ne_ifThen_row (c c' : Condition) (s t e : Statement) :
    (Derivation.ifThen c s).row ≠ (Derivation.ifThenElse c' t e).row := by
  intro h
  have hbranches := (conditionRow_append_inj (List.cons.inj h).2).2
  exact s.row_ne .elseWord (List.mem_append_right _ List.mem_cons_self)
    (List.cons.inj hbranches).2

/-- The grammar is unambiguous. -/
theorem Derivation.row_injective {d d' : Derivation} (h : d.row = d'.row) : d = d' := by
  cases d with
  | statement s =>
      cases d' with
      | statement s' => exact congrArg statement (Statement.row_injective h)
      | ifThen c' t' => exact (s.row_ne .ifWord List.mem_cons_self h).elim
      | ifThenElse c' t' e' => exact (s.row_ne .ifWord List.mem_cons_self h).elim
      | whileDo c' b' => exact (s.row_ne .whileWord List.mem_cons_self h).elim
      | forDo n' b' =>
          exact (s.row_ne .doWord (List.mem_cons_of_mem _ List.mem_cons_self) h).elim
  | ifThen c t =>
      cases d' with
      | statement s' => exact (s'.row_ne .ifWord List.mem_cons_self h.symm).elim
      | ifThen c' t' =>
          obtain ⟨rfl, hbranch⟩ := conditionRow_append_inj (List.cons.inj h).2
          obtain rfl := Statement.row_injective (List.cons.inj hbranch).2
          rfl
      | ifThenElse c' t' e' => exact (ifThenElse_row_ne_ifThen_row c c' t t' e' h).elim
      | _ => simp [row] at h
  | ifThenElse c t e =>
      cases d' with
      | statement s' => exact (s'.row_ne .ifWord List.mem_cons_self h.symm).elim
      | ifThen c' t' => exact (ifThenElse_row_ne_ifThen_row c' c t' t e h.symm).elim
      | ifThenElse c' t' e' =>
          obtain ⟨rfl, hbranches⟩ := conditionRow_append_inj (List.cons.inj h).2
          obtain ⟨htrue, hfalse⟩ := append_keyword_inj (keyword_notMem_statementRow .elseWord t)
            (keyword_notMem_statementRow .elseWord t') (List.cons.inj hbranches).2
          rw [Statement.row_injective htrue, Statement.row_injective hfalse]
      | _ => simp [row] at h
  | whileDo c b =>
      cases d' with
      | statement s' => exact (s'.row_ne .whileWord List.mem_cons_self h.symm).elim
      | whileDo c' b' =>
          obtain ⟨rfl, hbody⟩ := conditionRow_append_inj (List.cons.inj h).2
          have hrow := List.append_cancel_right (List.cons.inj hbody).2
          exact congrArg (whileDo c) (Statement.row_injective hrow)
      | _ => simp [row] at h
  | forDo n b =>
      cases d' with
      | statement s' =>
          exact (s'.row_ne .doWord (List.mem_cons_of_mem _ List.mem_cons_self) h.symm).elim
      | forDo n' b' =>
          obtain ⟨hheader, hrest⟩ := List.cons.inj h
          have hrow := List.append_cancel_right (List.cons.inj hrest).2
          rw [Meaning.forHeader.inj hheader, Statement.row_injective hrow]
      | _ => simp [row] at h

/-! ## Statements and conditions are read by their rules -/

theorem Statement.ofMeanings_row (s : Statement) : Simple.ofMeanings s.row = .ok s.simple := by
  cases s with
  | print name => rfl
  | assign target literal => cases target <;> rfl
  | compute target left op right => cases target <;> rfl

/-- A value is a number, or a variable, an operator and a number. -/
theorem exists_statement_of_ofValue (target : Target) {row : List Meaning} {s : Simple}
    (h : Simple.ofValue target.name row = .ok s) :
    ∃ d : Statement, d.row = target.row ++ row ∧ d.simple = s := by
  match row with
  | [] => exact nomatch h
  | [m] =>
      cases m with
      | number n => exact ⟨.assign target n, rfl, Except.ok.inj h⟩
      | _ => exact nomatch h
  | [m, m'] =>
      cases m with
      | varref left => cases m' <;> exact nomatch h
      | _ => exact nomatch h
  | m :: m' :: m'' :: rest =>
      cases m with
      | varref left =>
          cases m' with
          | operator op =>
              cases m'' with
              | number n =>
                  cases rest with
                  | nil => exact ⟨.compute target left op n, rfl, Except.ok.inj h⟩
                  | cons _ _ => exact nomatch h
              | _ => cases rest <;> exact nomatch h
          | _ => cases rest <;> exact nomatch h
      | _ => cases rest <;> exact nomatch h

theorem exists_statement_of_ofMeanings {row : List Meaning} {s : Simple}
    (h : Simple.ofMeanings row = .ok s) : ∃ d : Statement, d.row = row ∧ d.simple = s := by
  cases row with
  | nil => exact nomatch h
  | cons m rest =>
      cases m with
      | print name =>
          cases rest with
          | nil => exact ⟨.print name, rfl, Except.ok.inj h⟩
          | cons m rest => exact nomatch h
      | target name embeds =>
          cases embeds with
          | true => exact exists_statement_of_ofValue (.embedded name) h
          | false =>
              cases rest with
              | nil => exact nomatch h
              | cons m rest =>
                  cases m with
                  | equals => exact exists_statement_of_ofValue (.apart name) h
                  | _ => exact nomatch h
      | keyword word => cases word <;> exact nomatch h
      | _ => exact nomatch h

theorem ofMeanings_conditionRow (c : Condition) :
    Condition.ofMeanings (conditionRow c) = .ok c := rfl

theorem eq_conditionRow_of_ofMeanings {row : List Meaning} {c : Condition}
    (h : Condition.ofMeanings row = .ok c) : row = conditionRow c := by
  match row with
  | [m, m', m''] =>
      cases m with
      | varref name =>
          cases m' with
          | compare op =>
              cases m'' with
              | number n =>
                  obtain rfl := Except.ok.inj h
                  rfl
              | _ => exact nomatch h
          | _ => exact nomatch h
      | _ => exact nomatch h
  | [] => exact nomatch h
  | [_] => simp [Condition.ofMeanings] at h
  | [_, _] => simp [Condition.ofMeanings] at h
  | _ :: _ :: _ :: _ :: _ => simp [Condition.ofMeanings] at h

end Grammar

end LessonDeck
