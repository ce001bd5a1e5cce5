import Dlx.Assembly.Flaw
import Dlx.Assembly.Token
import Dlx.Instruction

/-!
# Operands and the instructions built from them

An opcode says which kinds of operands it takes. The arguments of a source line are read from left to
right, each as the kind that its position asks for, and the first that does not fit is reported.
Then the register that would receive a result must not be `R0`, and last the instruction is put
together.
-/

namespace Dlx.Assembly

/-! ## §1 Operands -/

/-- An argument that fits the kind of its position. -/
inductive Operand where
  | register (r : Register)
  | indirect (a : Indirect)
  | immediate (value : Word)
  | label (name : String)
  deriving DecidableEq, Repr

/-- The register of an index that was read from a text. -/
def existing (index : Nat) (text : String) : Except Flaw Register :=
  match Register.ofNat? index with
  | some r => .ok r
  | none => .error (.registerOutOfRange text)

/-- Reads an argument as an operand of a kind. Any text that is not empty can be a label. -/
def Operand.read (kind : OperandKind) (position : Nat) (text : String) : Except Flaw Operand :=
  match kind, Token.ofText? text with
  | .register, some (.register index) => (existing index text).map .register
  | .indirect, some (.indirect offset index) =>
    (existing index text).map fun base => .indirect ⟨offset, base⟩
  | .immediate, some (.immediate value) => .ok (.immediate value)
  | .immediate, _ => .error (.immediateExpected position text)
  | .label, _ => if text = "" then .error (.labelExpected position) else .ok (.label text)
  | kind, _ => .error (.operandExpected kind position text)

/-- Reads arguments as operands of the kinds that are asked for; the first has the position given. -/
def readOperands (position : Nat) : List OperandKind → List String → Except Flaw (List Operand)
  | kind :: kinds, text :: texts => do
    let operand ← Operand.read kind position text
    let operands ← readOperands (position + 1) kinds texts
    return operand :: operands
  | _, _ => .ok []

/-! ## §2 Instructions -/

/-- Puts an instruction together from operands of the kinds that its opcode asks for. -/
def build? : Opcode → List Operand → Option Instruction
  | .load, [.register rd, .indirect source] => some (.load rd source)
  | .store, [.indirect target, .register rs] => some (.store target rs)
  | .register op, [.register rd, .register rs1, .register rs2] => some (.register op rd rs1 rs2)
  | .immediate op _, [.register rd, .register rs1, .immediate value] =>
    some (.immediate op rd rs1 value)
  | .branch condition, [.register rs, .label label] => some (.branch condition rs label)
  | .jump linking, [.label label] => some (.jump linking label)
  | .jumpRegister linking, [.register rs] => some (.jumpRegister linking rs)
  | .halt, [] => some .halt
  | _, _ => none

/-- The result would go to `R0`. -/
def writesZero (opcode : Opcode) (operands : List Operand) : Bool :=
  opcode.writesFirst && operands.head? == some (.register .zero)

/-- The instruction of a mnemonic and its arguments. -/
def readInstruction (mnemonic : String) (arguments : List String) : Except Flaw Instruction :=
  match Opcode.ofMnemonic? mnemonic with
  | none => .error (.unknownOpcode mnemonic)
  | some opcode =>
    if arguments.length ≠ opcode.arity then
      .error (.argumentCount mnemonic opcode.arity arguments.length)
    else
      match readOperands 1 opcode.operands arguments with
      | .error e => .error e
      | .ok operands =>
        if writesZero opcode operands then .error .readOnly
        else
          match build? opcode operands with
          | some i => .ok i
          | none => .error (.unknownOpcode mnemonic)

end Dlx.Assembly
