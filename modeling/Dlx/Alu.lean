import Dlx.Word

/-!
# Arithmetic and logic

The thirteen operations on two words. Sums, differences and products wrap; the amount of a shift is
the second operand modulo 32, also for a negative one; comparisons are signed and give one or zero.
-/

namespace Dlx

/-- An operation of the arithmetic and logic unit. -/
inductive AluOp where
  | add
  | sub
  | mult
  | and
  | or
  | xor
  | sll
  | sra
  | srl
  | slt
  | sle
  | seq
  | sne
  deriving DecidableEq, Repr

namespace AluOp

/-- All operations, in the order of the instruction table. -/
def all : List AluOp :=
  [.add, .sub, .mult, .and, .or, .xor, .sll, .sra, .srl, .slt, .sle, .seq, .sne]

theorem mem_all (op : AluOp) : op ∈ all := by
  cases op <;> decide

/-- The name of the operation on registers. -/
def mnemonic : AluOp → String
  | .add => "ADD"
  | .sub => "SUB"
  | .mult => "MULT"
  | .and => "AND"
  | .or => "OR"
  | .xor => "XOR"
  | .sll => "SLL"
  | .sra => "SRA"
  | .srl => "SRL"
  | .slt => "SLT"
  | .sle => "SLE"
  | .seq => "SEQ"
  | .sne => "SNE"

/-- The word that stands for a truth value. -/
def truth (b : Bool) : Word :=
  if b then 1 else 0

/-- The result of an operation. A shift of machine words takes its amount modulo 32; `srl` shifts
the bits as an unsigned word. -/
def eval (op : AluOp) (a b : Word) : Word :=
  match op with
  | .add => a + b
  | .sub => a - b
  | .mult => a * b
  | .and => a &&& b
  | .or => a ||| b
  | .xor => a ^^^ b
  | .sll => a <<< b
  | .sra => a >>> b
  | .srl => (a.toUInt32 >>> b.toUInt32).toInt32
  | .slt => truth (decide (a < b))
  | .sle => truth (decide (a ≤ b))
  | .seq => truth (decide (a = b))
  | .sne => truth (decide (a ≠ b))

end AluOp

end Dlx
