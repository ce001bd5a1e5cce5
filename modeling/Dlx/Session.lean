import Dlx.Machine.Run

/-!
# Sessions

A session runs the program of a machine for a user and keeps a transcript. In a *run session* the
program is run again after every breakpoint, unless the user wants it to stop there; the transcript
names the breakpoints. In a *step session* the program is run line by line, and the transcript shows
every line that has been run.

A program that meets a breakpoint again and again can keep a run session going for ever, although every
single run ends. So a run session is given the number of runs it may take, and an ending of its own
says that they did not suffice.
-/

namespace Dlx.Session

/-! ## §1 Transcripts -/

/-- What a user sees while a session goes on. -/
inductive Event where
  | paused (line : Nat)
  | executed (line : Nat) (source : Line)
  deriving DecidableEq, Repr

/-- The line of text for an event; lines of the program are counted from one in it. -/
def Event.text : Event → String
  | .paused line => "Breakpoint at line " ++ Decimal.ofNat (line + 1) ++ "\n"
  | .executed line source =>
    Text.padStart 5 (Decimal.ofNat (line + 1)) ++ "  " ++ source.text ++ "\n"

/-- How a session ends. -/
inductive Ending where
  | finished
  | failed (error : MachineError)
  | unfinished
  deriving DecidableEq, Repr

/-- The events of a session in order, its ending, and the machine that it leaves. -/
structure Transcript where
  events : List Event
  ending : Ending
  machine : Machine

instance : Inhabited Transcript := ⟨⟨[], .unfinished, .initial⟩⟩

/-- The text of the events. -/
def Transcript.text (t : Transcript) : String :=
  String.join (t.events.map Event.text)

/-! ## §2 Run sessions -/

/-- Runs a machine up to a number of times, behind events that are given latest first. -/
def runFrom (stopAtBreakpoints : Bool) : Nat → List Event → Machine → Transcript
  | 0, events, m => ⟨events.reverse, .unfinished, m⟩
  | runs + 1, events, m =>
    match m.perform Machine.run with
    | (.ok (.completed _), m) => ⟨events.reverse, .finished, m⟩
    | (.ok (.paused line), m) =>
      if stopAtBreakpoints then ⟨(.paused line :: events).reverse, .finished, m⟩
      else runFrom stopAtBreakpoints runs (.paused line :: events) m
    | (.error e, m) => ⟨events.reverse, .failed e, m⟩

/-- Runs a machine until its program halts or fails, or, if wanted, until the first breakpoint. At
most `runs` runs are taken. -/
def run (runs : Nat) (stopAtBreakpoints : Bool) (m : Machine) : Transcript :=
  runFrom stopAtBreakpoints runs [] m

/-- Loads a source text into a new machine and runs it. -/
def runSource (runs : Nat) (source : String) : Transcript :=
  match Machine.initial.perform (Machine.loadSource source) with
  | (.ok _, m) => run runs false m
  | (.error e, m) => ⟨[], .failed e, m⟩

/-! ## §3 Step sessions -/

/-- The event of a line that has been run. -/
def executedEvent (m : Machine) (line : Nat) : List Event :=
  match m.program.bind (·.line? line) with
  | some l => [.executed line l]
  | none => []

/-- Runs up to `steps` lines, behind events that are given latest first. -/
def stepFrom (limit : Nat) : Nat → List Event → Machine → Transcript
  | 0, events, m => ⟨events.reverse, .failed (.tooManySteps limit), m⟩
  | steps + 1, events, m =>
    match m.perform Machine.step with
    | (.ok (.stepped line), m) => stepFrom limit steps (executedEvent m line ++ events) m
    | (.ok (.halted line), m) => ⟨(executedEvent m line ++ events).reverse, .finished, m⟩
    | (.error e, m) => ⟨events.reverse, .failed e, m⟩

/-- Runs a machine line by line until its program halts or fails, but no more lines than its budget
allows. -/
def step (m : Machine) : Transcript :=
  stepFrom m.budget.maxSteps.toNat m.budget.maxSteps.toNat [] m

/-! ## §4 The final state -/

/-- One row of a table: a name in a column of the given width, and a word. -/
def row (width : Nat) (name : String) (w : Word) : String :=
  "  " ++ Text.padEnd width name ++ " " ++ w.text ++ "\n"

/-- The registers other than `R0` that hold a word, and the memory cells that hold a word. -/
def report (s : State) : String :=
  let registers := s.registers.toList.filter fun entry => !entry.1.isZero
  let cells := s.memory.toList
  "Registers:\n" ++ String.join (registers.map fun entry => row 4 entry.1.name entry.2) ++
    if cells.isEmpty then ""
    else "Memory:\n" ++ String.join (cells.map fun entry => row 10 (Word.text entry.1) entry.2)

end Dlx.Session
