import Dlx.Assembly.Fields
import Dlx.Assembly.Operand
import Dlx.Program

/-!
# Source text

A source text is assembled line by line into a program with one line for each line of the text. The
first flaw ends it. Within one line the cutting into fields comes first, then the question whether
the label is taken, and then the reading of the instruction.
-/

namespace Dlx.Assembly

/-! ## §1 One line -/

/-- The line of a program that the fields describe. -/
def Fields.toLine (fields : Fields) : Except Flaw Line :=
  match fields.opcode with
  | none => .ok ⟨fields.label, fields.breakpoint, none⟩
  | some mnemonic =>
    match readInstruction mnemonic fields.arguments with
    | .ok i => .ok ⟨fields.label, fields.breakpoint, some i⟩
    | .error e => .error e

/-- The line of a program that a source line describes. -/
def readLine (cs : List Char) : Except Flaw Line := do
  let fields ← Fields.ofLine cs
  fields.toLine

/-! ## §2 All lines -/

/-- What is wrong, and in which line. -/
structure Error where
  line : Nat
  flaw : Flaw
  deriving DecidableEq, Repr

/-- The wording of an error; lines are counted from one in it. -/
def Error.message (e : Error) : String :=
  "Error in line " ++ Decimal.ofNat (e.line + 1) ++ ": " ++ e.flaw.message

/-- The line that carries the label of the fields already. -/
def earlier? (p : Program) (fields : Fields) : Option (String × Nat) := do
  let label ← fields.label
  let firstLine ← p.resolve? label
  return (label, firstLine)

/-- Adds the line that a source line describes. -/
def addSource (p : Program) (cs : List Char) : Except Flaw Program :=
  match Fields.ofLine cs with
  | .error e => .error e
  | .ok fields =>
    match earlier? p fields with
    | some (label, firstLine) => .error (.duplicateLabel label firstLine)
    | none =>
      match fields.toLine with
      | .error e => .error e
      | .ok l => .ok (p.append l)

/-- Adds the lines that source lines describe, up to the first flaw. -/
def addSources : Program → List (List Char) → Except Error Program
  | p, [] => .ok p
  | p, cs :: rest =>
    let line := p.size
    match addSource p cs with
    | .ok p' => addSources p' rest
    | .error flaw => .error ⟨line, flaw⟩

/-- The program of a source text. -/
def assemble (source : String) : Except Error Program :=
  addSources .empty (Text.lines source.toList)

end Dlx.Assembly
