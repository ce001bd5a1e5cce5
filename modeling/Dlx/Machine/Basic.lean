import Dlx.Assembly.Source
import Dlx.Budget
import Dlx.Machine.Execution

/-!
# The machine

A machine holds a program, if one is loaded, the state that its instructions work on, and the budget of
a run. Every operation on it either answers or fails with an error; either way there is a machine
afterwards, so an operation is a function from a machine to an answer or an error and the machine that
is left.
-/

namespace Dlx

/-! ## §1 Errors -/

/-- The ways in which an operation on a machine fails. -/
inductive MachineError where
  | fault (line : Nat) (fault : Fault)
  | haltNotFound
  | tooManySteps (limit : Nat)
  | readOnly
  | badRegister (text : String)
  | badAddress (text : String)
  | lineOutOfRange (line size : Nat)
  | noProgram
  | badInstruction (line : Nat) (flaw : NoImmediateForm)
  | badBudget (flaw : BudgetFlaw)
  | misaligned (flaw : Misaligned)
  | assembly (error : Assembly.Error)
  deriving DecidableEq, Repr

namespace MachineError

/-- The wording of an error that lies in a line. -/
def inLine (line : Nat) (message : String) : String :=
  "Error in line " ++ Decimal.ofNat (line + 1) ++ ": " ++ message

/-- The wording of an error; lines are counted from one in it. -/
def message : MachineError → String
  | .fault line f => inLine line f.message
  | .haltNotFound =>
    "The interpreter ran out of lines because it has not reached a \"HALT\" opcode"
  | .tooManySteps limit =>
    "The interpreter interpreted more than " ++ Decimal.ofNat limit ++ " lines. " ++
      "You are probably in a loop. If not, raise the maximum steps in the options"
  | .readOnly => "R0 is read-only"
  | .badRegister text => "Register address expected, got \"" ++ text ++ "\""
  | .badAddress text => "Memory address expected, got \"" ++ text ++ "\""
  | .lineOutOfRange line size =>
    "Line " ++ Decimal.ofNat (line + 1) ++ " is outside the program, which has only " ++
      Decimal.ofNat size ++ " lines"
  | .noProgram => "No program loaded"
  | .badInstruction line flaw => inLine line flaw.message
  | .badBudget flaw => "Invalid configuration: " ++ flaw.message
  | .misaligned flaw => flaw.message
  | .assembly error => error.message

/-- The line in which the error lies, if it lies in one. -/
def line? : MachineError → Option Nat
  | .fault line _ | .badInstruction line _ => some line
  | .assembly error => some error.line
  | _ => none

end MachineError

/-! ## §2 Machines -/

/-- A program, the state it works on, and the budget of a run. -/
structure Machine where
  program : Option Program
  state : State
  budget : Budget

namespace Machine

/-- The machine without a program. -/
def initial : Machine :=
  ⟨none, .initial, .standard⟩

instance : Inhabited Machine := ⟨initial⟩

/-- An operation: it answers or fails, and leaves a machine. -/
abbrev Action (α : Type) := ExceptT MachineError (StateM Machine) α

/-- The answer of an operation on a machine, and the machine that it leaves. -/
def perform {α : Type} (m : Machine) (action : Action α) : Except MachineError α × Machine :=
  action.run.run m

@[simp]
theorem perform_pure {α : Type} (m : Machine) (a : α) :
    m.perform (pure a : Action α) = (.ok a, m) := rfl

@[simp]
theorem perform_throw {α : Type} (m : Machine) (e : MachineError) :
    m.perform (throw e : Action α) = (.error e, m) := rfl

@[simp]
theorem perform_get (m : Machine) : m.perform (get : Action Machine) = (.ok m, m) := rfl

@[simp]
theorem perform_set (m n : Machine) : m.perform (set n : Action PUnit) = (.ok ⟨⟩, n) := rfl

@[simp]
theorem perform_modify (m : Machine) (f : Machine → Machine) :
    m.perform (modify f : Action PUnit) = (.ok ⟨⟩, f m) := rfl

/-- The second of two operations starts from the machine that the first one leaves; after an error it
does not start. -/
theorem perform_bind {α β : Type} (m : Machine) (first : Action α) (second : α → Action β) :
    m.perform (first >>= second) =
      match m.perform first with
      | (.ok a, n) => n.perform (second a)
      | (.error e, n) => (.error e, n) := by
  simp only [perform, ExceptT.run_bind, StateT.run_bind]
  rcases first.run.run m with ⟨result, n⟩
  cases result <;> simp <;> rfl

/-- Answers with a result that has been computed, or fails with its error. -/
def answer {ε α : Type} (wrap : ε → MachineError) (result : Except ε α) : Action α :=
  match result with
  | .ok a => pure a
  | .error e => throw (wrap e)

@[simp]
theorem perform_answer {ε α : Type} (m : Machine) (wrap : ε → MachineError) (result : Except ε α) :
    m.perform (answer wrap result) = (result.mapError wrap, m) := by
  cases result <;> rfl

/-- Changes the state. -/
def modifyState (f : State → State) : Action Unit :=
  modify fun m => { m with state := f m.state }

/-- The program that is loaded. -/
def loaded : Action Program := do
  match (← get).program with
  | some p => return p
  | none => throw .noProgram

theorem perform_loaded (m : Machine) :
    m.perform loaded =
      match m.program with
      | some p => (.ok p, m)
      | none => (.error .noProgram, m) := by
  cases h : m.program <;> simp [loaded, perform_bind, h]

/-! ## §3 Loading -/

/-- Unloads the program and returns to the first line. -/
def unload : Action Unit :=
  modify fun m => { m with program := none, state := m.state.goto 0 }

/-- Loads a program that has been accepted, at its first line. -/
def install (p : Program) : Action Unit :=
  modify fun m => { m with program := some p, state := m.state.goto 0 }

/-- Loads the program of a source text. If the text is refused, no program is loaded. -/
def loadSource (source : String) : Action Unit := do
  unload
  install (← answer .assembly (Assembly.assemble source))

/-- Loads a program. If an instruction is refused, no program is loaded. -/
def load (p : Program) : Action Unit := do
  unload
  match p.firstFlaw? with
  | some (line, flaw) => throw (.badInstruction line flaw)
  | none => install p

/-! ## §4 Settings -/

/-- Sets the budget of a run. -/
def configure (b : Budget) : Action Unit := do
  answer .badBudget b.check
  modify fun m => { m with budget := b }

/-- The machine without a program and with a budget. -/
def withBudget (b : Budget) : Except MachineError Machine :=
  match b.check with
  | .ok _ => .ok { initial with budget := b }
  | .error flaw => .error (.badBudget flaw)

/-- Goes on at a line. -/
def goto (line : Nat) : Action Unit := do
  let p ← loaded
  if line < p.size then modifyState (·.goto line) else throw (.lineOutOfRange line p.size)

/-- Sets or clears the breakpoint of a line. -/
def setBreakpoint (line : Nat) (on : Bool) : Action Unit := do
  let p ← loaded
  match p.setBreakpoint? line on with
  | some p' => modify fun m => { m with program := some p' }
  | none => throw (.lineOutOfRange line p.size)

/-- Turns the breakpoint of a line over, and answers whether it is set now. -/
def toggleBreakpoint (line : Nat) : Action Bool := do
  let p ← loaded
  match p.toggleBreakpoint? line with
  | some (on, p') =>
    modify fun m => { m with program := some p' }
    return on
  | none => throw (.lineOutOfRange line p.size)

/-- The lines with a breakpoint. -/
def breakpoints (m : Machine) : List Nat :=
  (m.program.map Program.breakpoints).getD []

/-! ## §5 Registers -/

/-- The register that a name denotes. -/
def registerOfName (text : String) : Action Register :=
  answer (fun _ => .badRegister text) (Register.ofName text)

/-- The register that a name denotes, if it can be written. -/
def writableOfName (text : String) : Action Register := do
  let r ← registerOfName text
  if r.isZero then throw .readOnly else return r

/-- The word in a register. -/
def readRegister (text : String) : Action (Option Word) := do
  let r ← registerOfName text
  return (← get).state.registers.read r

/-- Puts a word into a register. -/
def writeRegister (text : String) (w : Word) : Action Unit := do
  let r ← writableOfName text
  modifyState (·.writeRegister r w)

/-- Empties a register. -/
def eraseRegister (text : String) : Action Unit := do
  let r ← writableOfName text
  modifyState fun s => { s with registers := s.registers.erase r }

/-- Empties all registers. -/
def resetRegisters : Action Unit :=
  modifyState fun s => { s with registers := .empty }

/-! ## §6 Memory -/

/-- The address that a text denotes; blanks around it do not matter. -/
def addressOfText (text : String) : Action Address :=
  match Assembly.addressOfText? (String.ofList (Text.trim text.toList)) with
  | some a => return a
  | none => throw (.badAddress text)

/-- The word in a memory cell. -/
def readMemory (a : Address) : Action (Option Word) := do
  let a ← answer .misaligned (Address.aligned a)
  return (← get).state.memory.read a

/-- Puts a word into a memory cell. -/
def writeMemory (a : Address) (w : Word) : Action Unit := do
  let memory ← answer .misaligned ((← get).state.memory.write a w)
  modifyState fun s => { s with memory }

/-- Empties a memory cell. -/
def eraseMemory (a : Address) : Action Unit := do
  let a ← answer .misaligned (Address.aligned a)
  modifyState fun s => { s with memory := s.memory.erase a }

/-- The word in the memory cell that a text denotes. -/
def readMemoryAt (text : String) : Action (Option Word) := do
  readMemory (← addressOfText text)

/-- Puts a word into the memory cell that a text denotes. -/
def writeMemoryAt (text : String) (w : Word) : Action Unit := do
  writeMemory (← addressOfText text) w

/-- Empties all memory cells. -/
def resetMemory : Action Unit :=
  modifyState fun s => { s with memory := .empty }

/-- Empties registers and memory and returns to the first line. -/
def reset : Action Unit :=
  modifyState fun _ => .initial

end Machine

end Dlx
