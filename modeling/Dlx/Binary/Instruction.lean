import Dlx.Binary.Format
import Dlx.Budget
import Dlx.Instruction

/-!
# Binary formats of the instruction set

Opcodes, their classes and operand kinds, operations, conditions, registers, budgets and instructions
as bytes. A register is one byte; an enumeration is the index of its member, in four bytes; an
instruction is the index of its form and then its operands.
-/

namespace Dlx

open Binary

instance : Binary Register where
  encode r := [UInt8.ofNat r.index]
  decoder := do Register.ofNat? (← reader UInt8).toNat

instance : Binary AluOp where
  encode := encodeIndex AluOp.all
  decoder := decodeIndex? AluOp.all

instance : Binary Condition where
  encode := encodeIndex Condition.all
  decoder := decodeIndex? Condition.all

instance : Binary OperandKind where
  encode := encodeIndex OperandKind.all
  decoder := decodeIndex? OperandKind.all

instance : Binary OpcodeClass where
  encode := encodeIndex OpcodeClass.all
  decoder := decodeIndex? OpcodeClass.all

instance : Binary Opcode where
  encode := encodeIndex Opcode.all
  decoder := decodeIndex? Opcode.all

instance : Binary Budget where
  encode b := encode b.maxSteps ++ encode b.maxJumps
  decoder := do return ⟨← reader UInt32, ← reader UInt32⟩

/-- The base comes before the offset. -/
instance : Binary Indirect where
  encode a := encode a.base ++ encode a.offset
  decoder := do
    let base ← reader Register
    let offset ← reader Word
    return ⟨offset, base⟩

/-- The forms of instructions, in the order of their indices. -/
inductive Form where
  | load
  | store
  | register
  | immediate
  | branch
  | jump
  | jumpRegister
  | halt
  deriving DecidableEq, Repr

/-- All forms. -/
def Form.all : List Form :=
  [.load, .store, .register, .immediate, .branch, .jump, .jumpRegister, .halt]

instance : Binary Form where
  encode := encodeIndex Form.all
  decoder := decodeIndex? Form.all

/-- The form of an instruction. -/
def Instruction.form : Instruction → Form
  | .load _ _ => .load
  | .store _ _ => .store
  | .register _ _ _ _ => .register
  | .immediate _ _ _ _ => .immediate
  | .branch _ _ _ => .branch
  | .jump _ _ => .jump
  | .jumpRegister _ _ => .jumpRegister
  | .halt => .halt

/-- The bytes of the operands of an instruction. -/
def Instruction.encodeOperands : Instruction → List UInt8
  | .load rd source => encode rd ++ encode source
  | .store target rs => encode target ++ encode rs
  | .register op rd rs1 rs2 => encode op ++ encode rd ++ encode rs1 ++ encode rs2
  | .immediate op rd rs1 value => encode op ++ encode rd ++ encode rs1 ++ encode value
  | .branch condition rs label => encode condition ++ encode rs ++ encode label
  | .jump linking label => encode linking ++ encode label
  | .jumpRegister linking rs => encode linking ++ encode rs
  | .halt => []

/-- Reads the operands of an instruction of a given form. -/
def Form.readOperands : Form → Reader Instruction
  | .load => do return .load (← reader Register) (← reader Indirect)
  | .store => do return .store (← reader Indirect) (← reader Register)
  | .register => do
    return .register (← reader AluOp) (← reader Register) (← reader Register) (← reader Register)
  | .immediate => do
    return .immediate (← reader AluOp) (← reader Register) (← reader Register) (← reader Word)
  | .branch => do return .branch (← reader Condition) (← reader Register) (← reader String)
  | .jump => do return .jump (← reader Bool) (← reader String)
  | .jumpRegister => do return .jumpRegister (← reader Bool) (← reader Register)
  | .halt => return .halt

instance : Binary Instruction where
  encode i := encode i.form ++ i.encodeOperands
  decoder := do (← reader Form).readOperands

end Dlx
