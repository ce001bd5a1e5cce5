import Dlx.Budget
import Dlx.CommandLine.Assignment

/-!
# Invocations

The arguments of the command line, read from left to right.

There is one positional argument, the file; everything behind `--` is positional. An option takes its
value from behind an equals sign or from the next argument, which must not look like an option itself.
An option whose value is still to come is settled, its value checked and stored, when the next
argument that is known begins, or at the end. An argument that is not known ends the reading at once,
before an option that is still to be settled is looked at.
-/

namespace Dlx

/-! ## §1 What is read -/

/-- What the command line asks for. -/
structure Invocation where
  file : String
  maxSteps : UInt32
  maxJumps : UInt32
  step : Bool
  stopAtBreakpoints : Bool
  registers : List Assignment
  memory : List Assignment
  verbosity : Nat
  deriving DecidableEq, Repr

namespace Invocation

/-- Why there is no invocation: the command line is wrong, or it asks for information instead. -/
inductive Refusal where
  | missingFile
  | unknownArgument
  | missingValue
  | badValue
  | repeated
  | unexpectedValue
  | help
  | version
  deriving DecidableEq, Repr

/-- The budget that is asked for. -/
def budget (i : Invocation) : Budget :=
  ⟨i.maxSteps, i.maxJumps⟩

/-- How much is logged. -/
def logLevel (i : Invocation) : String :=
  match i.verbosity with
  | 0 => "warn"
  | 1 => "info"
  | 2 => "debug"
  | _ => "trace"

/-! ## §2 The arguments that are known -/

/-- An argument that takes a value. -/
inductive Valued where
  | file
  | maxSteps
  | maxJumps
  | set
  | mem
  deriving DecidableEq, Repr

/-- An argument that takes no value. -/
inductive Switch where
  | step
  | stopAtBreakpoints
  | verbose
  | help
  | version
  deriving DecidableEq, Repr

/-- An option with a long name. -/
inductive Opt where
  | valued (v : Valued)
  | switch (s : Switch)
  deriving DecidableEq, Repr

/-- The options by their long names. Names are not abbreviated. -/
def longOption? (name : String) : Option Opt :=
  match name with
  | "max-steps" => some (.valued .maxSteps)
  | "max-jumps" => some (.valued .maxJumps)
  | "set" => some (.valued .set)
  | "mem" => some (.valued .mem)
  | "step" => some (.switch .step)
  | "stop-at-breakpoints" => some (.switch .stopAtBreakpoints)
  | "verbose" => some (.switch .verbose)
  | "help" => some (.switch .help)
  | "version" => some (.switch .version)
  | _ => none

/-- The switches by their letters. -/
def shortSwitch? (c : Char) : Option Switch :=
  match c with
  | 'v' => some .verbose
  | 'h' => some .help
  | 'V' => some .version
  | _ => none

/-! ## §3 Reading -/

/-- What has been read so far, and the argument whose value is still to come or to be checked. -/
structure Reading where
  file : Option String
  maxSteps : Option UInt32
  maxJumps : Option UInt32
  step : Bool
  stopAtBreakpoints : Bool
  registers : List Assignment
  memory : List Assignment
  verbosity : Nat
  pending : Option (Valued × Option String)
  positionals : Nat
  onlyPositionals : Bool
  deriving DecidableEq, Repr

namespace Reading

/-- Nothing has been read. -/
def start : Reading where
  file := none
  maxSteps := none
  maxJumps := none
  step := false
  stopAtBreakpoints := false
  registers := []
  memory := []
  verbosity := 0
  pending := none
  positionals := 0
  onlyPositionals := false

/-- A number of steps or jumps: digits behind an optional sign, in the range of 32 bits. -/
def count (text : String) : Except Refusal UInt32 :=
  match Decimal.signed? text.toList with
  | some i => if 0 ≤ i ∧ i.toNat < UInt32.size then .ok (UInt32.ofNat i.toNat) else .error .badValue
  | none => .error .badValue

/-- An assignment. -/
def assignment (text : String) : Except Refusal Assignment :=
  (Assignment.read text).mapError fun _ => .badValue

/-- Stores the value of an argument. A number may be given once only, which is checked before the
value is; assignments may be repeated. -/
def store (r : Reading) (argument : Valued) (text : String) : Except Refusal Reading :=
  match argument with
  | .file => if text = "" then .error .missingValue else .ok { r with file := some text }
  | .maxSteps =>
    if r.maxSteps.isSome then .error .repeated
    else (count text).map fun n => { r with maxSteps := some n }
  | .maxJumps =>
    if r.maxJumps.isSome then .error .repeated
    else (count text).map fun n => { r with maxJumps := some n }
  | .set => (assignment text).map fun a => { r with registers := r.registers ++ [a] }
  | .mem => (assignment text).map fun a => { r with memory := r.memory ++ [a] }

/-- Settles the argument that is pending. -/
def settle (r : Reading) : Except Refusal Reading :=
  match r.pending with
  | none => .ok r
  | some (_, none) => .error .missingValue
  | some (argument, some text) => store { r with pending := none } argument text

/-- The greatest verbosity. -/
def greatestVerbosity : Nat := 255

/-- Turns a switch on. Only the verbosity may be raised repeatedly. What is pending is settled first,
so a bad value in front of a request for help is reported. -/
def turnOn (r : Reading) (s : Switch) : Except Refusal Reading := do
  let r ← r.settle
  match s with
  | .step => if r.step then throw .repeated else return { r with step := true }
  | .stopAtBreakpoints =>
    if r.stopAtBreakpoints then throw .repeated else return { r with stopAtBreakpoints := true }
  | .verbose => return { r with verbosity := min (r.verbosity + 1) greatestVerbosity }
  | .help => throw .help
  | .version => throw .version

/-- Turns on the switches of a group of letters. -/
def turnOnAll (r : Reading) : List Char → Except Refusal Reading
  | [] => .ok r
  | c :: cs =>
    match shortSwitch? c with
    | some s =>
      match r.turnOn s with
      | .ok r => r.turnOnAll cs
      | .error e => .error e
    | none => .error .unknownArgument

/-- Reads an option with a long name and perhaps a value behind an equals sign. -/
def long (r : Reading) (name : String) (value : Option String) : Except Refusal Reading :=
  match longOption? name, value with
  | none, _ => .error .unknownArgument
  | some (.valued v), some text => do (← r.settle).store v text
  | some (.valued v), none => do return { ← r.settle with pending := some (v, none) }
  | some (.switch _), some _ => .error .unexpectedValue
  | some (.switch s), none => r.turnOn s

/-- Reads a positional argument. -/
def positional (r : Reading) (text : String) : Except Refusal Reading :=
  if r.positionals = 0 then do
    return { ← r.settle with pending := some (.file, some text), positionals := 1 }
  else .error .unknownArgument

/-- Reads an argument that is no option: a value that is waited for, or a positional argument. -/
def plain (r : Reading) (text : String) : Except Refusal Reading :=
  match r.pending with
  | some (v, none) => .ok { r with pending := some (v, some text) }
  | _ => r.positional text

/-- Reads the next argument. -/
def next (r : Reading) (text : String) : Except Refusal Reading :=
  if r.onlyPositionals then r.positional text
  else
    match text.toList with
    | ['-', '-'] => .ok { r with onlyPositionals := true }
    | '-' :: '-' :: cs =>
      -- The name ends at the first equals sign; the value may hold more of them.
      match Text.cut? '=' cs with
      | some (name, value) => r.long (String.ofList name) (some (String.ofList value))
      | none => r.long (String.ofList cs) none
    | '-' :: c :: cs => r.turnOnAll (c :: cs)
    -- A single minus sign is an ordinary text.
    | _ => r.plain text

/-- The invocation that has been read. -/
def finish (r : Reading) : Except Refusal Invocation := do
  let r ← r.settle
  match r.file with
  | none => throw .missingFile
  | some file =>
    return {
      file
      maxSteps := r.maxSteps.getD Budget.standard.maxSteps
      maxJumps := r.maxJumps.getD Budget.standard.maxJumps
      step := r.step
      stopAtBreakpoints := r.stopAtBreakpoints
      registers := r.registers
      memory := r.memory
      verbosity := r.verbosity }

end Reading

/-- Reads the arguments of a command line. -/
def read (arguments : List String) : Except Refusal Invocation := do
  (← arguments.foldlM Reading.next .start).finish

end Invocation

end Dlx
