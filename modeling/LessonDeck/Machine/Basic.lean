import LessonDeck.Command.Basic
import LessonDeck.Machine.Outcome
/-!
# The machine

A machine keeps the variables and the journal and runs commands.  While a command runs, its
progress collects what it wrote and printed.  A simple statement either does all it has to do or
has a fault before it does anything; loops repeat statements and keep what was done before a fault.
A `while` loop stops at the cap only if its condition still holds there; a `for` loop binds `i`
before each iteration and puts the former binding back afterwards.
-/

namespace LessonDeck

/-- The variable that a counted loop binds. -/
def loopName : String :=
  "i"

def defaultCap : Nat :=
  50

structure Progress where
  vars : Variables
  journal : Array Entry
  /-- The names the command has written. -/
  written : List String
  printed : Array Printed
  deriving Repr, DecidableEq

namespace Progress

/-- Makes an entry about the variables as they stand. -/
def record (p : Progress) (who : Signature) (kind : EntryKind) (action result : String) :
    Progress :=
  { p with journal := p.journal.push (who.entry p.journal.size p.vars kind action result) }

def write (p : Progress) (name : String) (v : Int64) : Progress :=
  { p with vars := p.vars.write name (some v), written := p.written.insert name }

def print (p : Progress) (name : String) (v : Int64) : Progress :=
  { p with printed := p.printed.push ⟨name, v⟩ }

end Progress

def Condition.holds (c : Condition) (vars : Variables) : Except Fault Bool :=
  (vars.read c.name).map fun left => c.op.holds left c.literal

/-- The value that a computation stores, and what it read to find it. -/
def computed (vars : Variables) (left : String) (op : Arith) (right : Int64) :
    Except Fault (Int64 × Int64) := do
  let l ← vars.read left
  match op.apply l right with
  | some v => return (l, Value.clamp v)
  | none => .error .divisionByZero

namespace Simple

/-- Runs a statement: its summary and the progress after it, or the fault that it has before it
does anything. -/
def run (who : Signature) (s : Simple) (p : Progress) : Except Fault (String × Progress) :=
  match s with
  | assign name literal =>
    let v := Value.clamp literal
    let p := (p.write name v).record who .info s.text (name ++ " → " ++ Value.text v)
    .ok (name ++ " was set to " ++ Value.text v, p)
  | compute name left op right => do
    let (l, v) ← computed p.vars left op right
    let worked :=
      Value.text l ++ " " ++ op.symbol ++ " " ++ Value.text right ++ " = " ++ Value.text v
    return (name ++ " = " ++ worked, (p.write name v).record who .info s.text worked)
  | print name => do
    let v ← p.vars.read name
    let shown := name ++ " = " ++ Value.text v
    return (shown, (p.record who .info s.text shown).print name v)

end Simple

structure LoopRun where
  progress : Progress
  iterations : Nat
  /-- Whether it was stopped at the cap, or the fault that stopped it. -/
  ending : Except Fault Bool

/-- Runs a body while a condition holds, at most so many more times. -/
def runWhile (who : Signature) (c : Condition) (body : Simple) :
    Nat → Nat → Progress → LoopRun
  | left, done, p =>
    match c.holds p.vars with
    | .error fault => ⟨p, done, .error fault⟩
    | .ok false => ⟨p, done, .ok false⟩
    | .ok true =>
      match left with
      | 0 => ⟨p, done, .ok true⟩
      | left + 1 =>
        match body.run who p with
        | .error fault => ⟨p, done, .error fault⟩
        | .ok (_, p) => runWhile who c body left (done + 1) p

/-- Runs a body so many more times, the loop variable bound to the number of the iteration. -/
def runFor (who : Signature) (body : Simple) : Nat → Nat → Progress → Progress × Except Fault Unit
  | 0, _, p => (p, .ok ())
  | left + 1, i, p =>
    let p := { p with vars := p.vars.write loopName (some (Int64.ofNat i)) }
    match body.run who p with
    | .error fault => (p, .error fault)
    | .ok (_, p) => runFor who body left (i + 1) p

def iterationsText (n : Nat) : String :=
  Text.showNat n ++ " iterations"

namespace Command

def runBranch (who : Signature) (c : Condition) (onTrue : Simple) (onFalse : Option Simple)
    (p : Progress) : Except Fault (String × Flow × Progress) := do
  let met ← c.holds p.vars
  let chosen := if met then some onTrue else onFalse
  let p ←
    match chosen with
    | some s => (s.run who p).map Prod.snd
    | none => .ok p
  let verdict := if met then "condition met" else "condition not met"
  return ("if statement executed (" ++ verdict ++ ")", .branch met chosen.isSome,
    p.record who .info ("if " ++ c.text ++ " then ...") verdict)

def runWhileLoop (who : Signature) (cap : Nat) (c : Condition) (body : Simple) (p : Progress) :
    Progress × Except Fault (String × Flow) :=
  let ran := runWhile who c body cap 0 p
  match ran.ending with
  | .error fault => (ran.progress, .error fault)
  | .ok maxReached =>
    let count := iterationsText ran.iterations
    let p := ran.progress.record who .info ("while " ++ c.text ++ " do ...") count
    let p :=
      if maxReached then
        p.record who .warning "WARNING" ("while loop stopped after " ++ iterationsText cap)
      else p
    (p, .ok ("while loop: " ++ count, .loop ran.iterations maxReached))

/-- Runs a `for` loop.  Its variable is not among those it wrote, and is bound afterwards as it was
before. -/
def runForLoop (who : Signature) (count : UInt32) (body : Simple) (p : Progress) :
    Progress × Except Fault (String × Flow) :=
  let prior := p.vars.binding loopName
  let (p, result) := runFor who body count.toNat 1 p
  let p :=
    { p with
      vars := p.vars.restore loopName prior
      written := p.written.filter (· != loopName) }
  match result with
  | .error fault => (p, .error fault)
  | .ok () =>
    let n := iterationsText count.toNat
    let action := "for " ++ loopName ++ " = 1 to " ++ Text.showNat count.toNat ++ " do ..."
    (p.record who .info action n, .ok ("for loop: " ++ n, .loop count.toNat false))

/-- Runs a command: the progress at its end, with the summary and the way control went or the
fault that stopped it. -/
def run (who : Signature) (cap : Nat) (command : Command) (p : Progress) :
    Progress × Except Fault (String × Flow) :=
  match command with
  | simple s =>
    match s.run who p with
    | .ok (summary, p) => (p, .ok (summary, .statement))
    | .error fault => (p, .error fault)
  | branch c onTrue onFalse =>
    match runBranch who c onTrue onFalse p with
    | .ok (summary, flow, p) => (p, .ok (summary, flow))
    | .error fault => (p, .error fault)
  | whileLoop c body => runWhileLoop who cap c body p
  | forLoop count body => runForLoop who count body p

end Command

structure Machine where
  vars : Variables
  journal : Array Entry
  cap : Nat
  deriving Repr, DecidableEq

/-- The variables and the journal of a machine at some time. -/
structure Checkpoint where
  vars : Variables
  journal : Array Entry
  time : Instant
  deriving Repr, DecidableEq

namespace Machine

def new (cap : Nat) : Machine :=
  ⟨Variables.fresh, #[], cap⟩

def reset (m : Machine) : Machine :=
  new m.cap

def setVariables (m : Machine) (vars : Variables) : Machine :=
  { m with vars := vars.entries.foldl (fun v b => v.write b.1 b.2) m.vars }

def log (m : Machine) (who : Signature) (kind : EntryKind) (action result : String) : Machine :=
  { m with journal := m.journal.push (who.entry m.journal.size m.vars kind action result) }

def checkpoint (m : Machine) (time : Instant) : Checkpoint :=
  ⟨m.vars, m.journal, time⟩

/-- Takes over variables, clamped, and a journal. -/
def restore (m : Machine) (c : Checkpoint) : Machine :=
  { m with vars := c.vars.clamped, journal := c.journal }

def start (m : Machine) : Progress :=
  ⟨m.vars, m.journal, [], #[]⟩

/-- Executes a command on behalf of somebody.  A fault is entered in the journal. -/
def execute (m : Machine) (who : Signature) (command : Command) : Except Fault Outcome × Machine :=
  match command.run who m.cap m.start with
  | (p, .ok (summary, flow)) =>
    let updated := Variables.ofList (p.written.map fun name => (name, p.vars.value? name))
    (.ok ⟨summary, updated, p.printed.toList, flow⟩,
      { m with vars := p.vars, journal := p.journal })
  | (p, .error fault) =>
    let stopped := { m with vars := p.vars, journal := p.journal }
    (.error fault, stopped.log who .error command.text ("Error: " ++ fault.message))

end Machine

end LessonDeck
