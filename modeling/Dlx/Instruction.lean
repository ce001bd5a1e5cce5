import Dlx.Opcode
import Dlx.Register

/-!
# Instructions

An instruction is an opcode together with its operands. The type admits one instruction that no
mnemonic can write, the product with an immediate operand; `Instruction.check` refuses it.

An instruction is written with its mnemonic, a space, and its operands separated by a comma and a
space.
-/

namespace Dlx

/-! ## §1 Operands in memory -/

/-- The operand `offset(base)`: the address is the sum of both. -/
structure Indirect where
  offset : Word
  base : Register
  deriving DecidableEq, Repr

/-- The text of the operand. -/
def Indirect.text (a : Indirect) : String :=
  a.offset.text ++ "(" ++ a.base.name ++ ")"

/-! ## §2 Instructions -/

/-- An instruction with its operands. -/
inductive Instruction where
  | load (rd : Register) (source : Indirect)
  | store (target : Indirect) (rs : Register)
  | register (op : AluOp) (rd rs1 rs2 : Register)
  | immediate (op : AluOp) (rd rs1 : Register) (value : Word)
  | branch (condition : Condition) (rs : Register) (label : String)
  | jump (linking : Bool) (label : String)
  | jumpRegister (linking : Bool) (rs : Register)
  | halt
  deriving DecidableEq, Repr

/-- An operation that has no form with an immediate operand. -/
structure NoImmediateForm where
  op : AluOp
  deriving DecidableEq, Repr

/-- The wording of the error. -/
def NoImmediateForm.message (e : NoImmediateForm) : String :=
  "\"" ++ e.op.mnemonic ++ "\" has no immediate form"

namespace Instruction

/-- The opcode of an instruction. The product with an immediate operand has none of its own; it goes
by the name of the product of registers. -/
def opcode : Instruction → Opcode
  | .load _ _ => .load
  | .store _ _ => .store
  | .register op _ _ _ => .register op
  | .immediate op _ _ _ => op.immediateForm?.getD (.register op)
  | .branch condition _ _ => .branch condition
  | .jump linking _ => .jump linking
  | .jumpRegister linking _ => .jumpRegister linking
  | .halt => .halt

/-- The mnemonic of an instruction. -/
def mnemonic (i : Instruction) : String :=
  i.opcode.mnemonic

/-- Accepts the instructions that a mnemonic can write. -/
def check : Instruction → Except NoImmediateForm Unit
  | .immediate op _ _ _ => if op.immediateForm?.isSome then .ok () else .error ⟨op⟩
  | _ => .ok ()

/-- The instruction may go on elsewhere than on the next line. -/
def isControl : Instruction → Bool
  | .branch _ _ _ | .jump _ _ | .jumpRegister _ _ => true
  | _ => false

/-- The label to which the instruction refers. -/
def label? : Instruction → Option String
  | .branch _ _ label | .jump _ label => some label
  | _ => none

/-- The register that the instruction may change. -/
def destination? : Instruction → Option Register
  | .load rd _ | .register _ rd _ _ | .immediate _ rd _ _ => some rd
  | .jump true _ | .jumpRegister true _ => some .link
  | _ => none

/-! ## §3 Text -/

/-- The texts of the operands, from left to right. -/
def arguments : Instruction → List String
  | .load rd source => [rd.name, source.text]
  | .store target rs => [target.text, rs.name]
  | .register _ rd rs1 rs2 => [rd.name, rs1.name, rs2.name]
  | .immediate _ rd rs1 value => [rd.name, rs1.name, "#" ++ value.text]
  | .branch _ rs label => [rs.name, label]
  | .jump _ label => [label]
  | .jumpRegister _ rs => [rs.name]
  | .halt => []

/-- The text of an instruction. -/
def text (i : Instruction) : String :=
  match i.arguments with
  | [] => i.mnemonic
  | arguments => i.mnemonic ++ " " ++ ", ".intercalate arguments

end Instruction

end Dlx
