import Dlx.CommandLine.Invocation
import Dlx.Session

/-!
# What the command line program does

The program reads a source file, prepares a machine with the budget and the presets that the command
line asks for, holds a session, and shows the final state. All this is a function from the command line
and the contents of the file to an exit code and two texts; only reading the file and writing the texts
are left to the outer layer.

If something fails, what has been shown before stays shown, and the complaint goes to the error output.
-/

namespace Dlx

/-! ## §1 Complaints -/

/-- What went wrong, and the cause behind it if it has one. -/
structure Complaint where
  message : String
  cause : Option String
  deriving DecidableEq, Repr

/-- A text with four spaces in front of every line. -/
def indented (text : String) : String :=
  String.join ((Text.splitOn '\n' text.toList).map fun l => "\n    " ++ String.ofList l)

/-- The text of a complaint. -/
def Complaint.text (c : Complaint) : String :=
  "Error: " ++ c.message ++ "\n" ++
    match c.cause with
    | some cause => "\nCaused by:" ++ indented cause ++ "\n"
    | none => ""

/-- The cause behind an error of a machine. -/
def MachineError.cause? : MachineError → Option String
  | .fault _ f => some f.message
  | .badInstruction _ flaw => some flaw.message
  | .badBudget flaw => some flaw.message
  | .assembly error => some error.flaw.message
  | _ => none

/-- The complaint about an error of a machine. -/
def MachineError.complaint (e : MachineError) : Complaint :=
  ⟨e.message, e.cause?⟩

/-- Why a file cannot be read. -/
inductive Unreadable where
  | notFound
  | notText
  | other (reason : String)
  deriving DecidableEq, Repr

/-- The wording of the reason. -/
def Unreadable.message : Unreadable → String
  | .notFound => "No such file or directory (os error 2)"
  | .notText => "stream did not contain valid UTF-8"
  | .other reason => reason

namespace Invocation

/-! ## §2 Preparing a machine -/

/-- The result of an operation on a machine, with a complaint in place of an error. -/
def attempt {α : Type} (m : Machine) (action : Machine.Action α)
    (complain : MachineError → Complaint) : Except Complaint Machine :=
  match m.perform action with
  | (.ok _, m) => .ok m
  | (.error e, _) => .error (complain e)

/-- Presets a register. -/
def presetRegister (m : Machine) (a : Assignment) : Except Complaint Machine :=
  attempt m (Machine.writeRegister a.name a.value) fun e => ⟨"cannot preset " ++ a.name, some e.message⟩

/-- Presets a memory cell. -/
def presetMemory (m : Machine) (a : Assignment) : Except Complaint Machine :=
  attempt m (Machine.writeMemoryAt a.name a.value) fun e =>
    ⟨"cannot preset memory " ++ a.name, some e.message⟩

/-- The machine that the session starts from. -/
def prepare (i : Invocation) (source : Except Unreadable String) : Except Complaint Machine := do
  let source ← source.mapError fun u => ⟨"failed to read " ++ i.file, some u.message⟩
  let budget ← i.budget.checked.mapError fun flaw => ⟨flaw.message, none⟩
  let m ← attempt .initial (Machine.configure budget) MachineError.complaint
  let m ← attempt m (Machine.loadSource source) MachineError.complaint
  let m ← i.registers.foldlM presetRegister m
  i.memory.foldlM presetMemory m

/-! ## §3 Outcomes -/

/-- What the program leaves behind: its exit code and what it has written. -/
structure Outcome where
  exitCode : UInt8
  output : String
  errors : String
  deriving DecidableEq, Repr

/-- The outcome of a session. There is none if the session was given too few runs to end. -/
def outcomeOfSession (t : Session.Transcript) : Option Outcome :=
  match t.ending with
  | .finished => some ⟨0, t.text ++ Session.report t.machine.state, ""⟩
  | .failed e => some ⟨1, t.text, e.complaint.text⟩
  | .unfinished => none

/-- The session that is asked for, with a number of runs that it may take. -/
def session (i : Invocation) (runs : Nat) (m : Machine) : Session.Transcript :=
  if i.step then Session.step m else Session.run runs i.stopAtBreakpoints m

/-- The outcome of an invocation, given the contents of its file. -/
def outcome (i : Invocation) (runs : Nat) (source : Except Unreadable String) : Option Outcome :=
  match i.prepare source with
  | .error c => some ⟨1, "", c.text⟩
  | .ok m => outcomeOfSession (i.session runs m)

end Invocation

end Dlx
