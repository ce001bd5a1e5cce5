import Dlx.Alu

/-!
# Opcodes

The closed table of mnemonics. An opcode is an instruction without its operands, so it says which
operation an instruction performs, and from it follow the mnemonic, the class, and the kinds of
operands in the order in which they are written.

Every operation of the arithmetic and logic unit has a form on registers, and all but the product
have a form with an immediate operand.
-/

namespace Dlx

/-! ## §1 Conditions -/

/-- The condition of a branch on a register. -/
inductive Condition where
  | zero
  | notZero
  deriving DecidableEq, Repr

/-- The condition holds of a word. -/
def Condition.holds (c : Condition) (w : Word) : Bool :=
  match c with
  | .zero => w == 0
  | .notZero => w != 0

/-- Both conditions. -/
def Condition.all : List Condition := [.zero, .notZero]

/-! ## §2 Kinds and classes -/

/-- What an operand may be. -/
inductive OperandKind where
  | register
  | indirect
  | immediate
  | label
  deriving DecidableEq, Repr

/-- The kind's name in messages. -/
def OperandKind.text : OperandKind → String
  | .register => "register"
  | .indirect => "memory"
  | .immediate => "immediate"
  | .label => "label"

/-- All kinds. -/
def OperandKind.all : List OperandKind :=
  [.register, .indirect, .immediate, .label]

/-- What an instruction is for. -/
inductive OpcodeClass where
  | load
  | store
  | register
  | immediate
  | jump
  | halt
  deriving DecidableEq, Repr

/-- All classes. -/
def OpcodeClass.all : List OpcodeClass :=
  [.load, .store, .register, .immediate, .jump, .halt]

/-! ## §3 The opcodes -/

/-- An operation that an instruction may name. -/
inductive Opcode where
  | load
  | store
  | register (op : AluOp)
  | immediate (op : AluOp) (notMult : op ≠ .mult)
  | branch (condition : Condition)
  | jump (linking : Bool)
  | jumpRegister (linking : Bool)
  | halt
  deriving DecidableEq

/-- The opcode of the immediate form of an operation, if there is one. -/
def AluOp.immediateForm? (op : AluOp) : Option Opcode :=
  if h : op ≠ .mult then some (.immediate op h) else none

namespace Opcode

/-- The name by which a source line calls the opcode. -/
def mnemonic : Opcode → String
  | .load => "LW"
  | .store => "SW"
  | .register op => op.mnemonic
  | .immediate op _ => op.mnemonic ++ "I"
  | .branch .zero => "BEQZ"
  | .branch .notZero => "BNEZ"
  | .jump false => "J"
  | .jump true => "JAL"
  | .jumpRegister false => "JR"
  | .jumpRegister true => "JALR"
  | .halt => "HALT"

/-- The table of opcodes. -/
def all : List Opcode :=
  [.load, .store] ++ AluOp.all.map .register ++ AluOp.all.filterMap AluOp.immediateForm? ++
    [.branch .zero, .branch .notZero, .jump false, .jumpRegister false, .jump true,
      .jumpRegister true, .halt]

theorem mem_all (op : Opcode) : op ∈ all := by
  cases op with
  | load | store | halt => simp [all]
  | register op => simp [all, AluOp.mem_all]
  | immediate op notMult =>
    have hform : op.immediateForm? = some (.immediate op notMult) := dif_pos notMult
    simp only [all, List.mem_append, List.mem_filterMap]
    exact .inl (.inr ⟨op, op.mem_all, hform⟩)
  | branch condition => cases condition <;> simp [all]
  | jump linking | jumpRegister linking => cases linking <;> simp [all]

/-- The table has thirty-four entries. -/
theorem length_all : all.length = 34 := by decide

/-- The opcode of a mnemonic. Case matters. -/
def ofMnemonic? (text : String) : Option Opcode :=
  all.find? fun op => op.mnemonic == text

/-- The class of an opcode. -/
def opcodeClass : Opcode → OpcodeClass
  | .load => .load
  | .store => .store
  | .register _ => .register
  | .immediate _ _ => .immediate
  | .branch _ | .jump _ | .jumpRegister _ => .jump
  | .halt => .halt

/-- The kinds of the operands, as they are written from left to right. -/
def operands : Opcode → List OperandKind
  | .load => [.register, .indirect]
  | .store => [.indirect, .register]
  | .register _ => [.register, .register, .register]
  | .immediate _ _ => [.register, .register, .immediate]
  | .branch _ => [.register, .label]
  | .jump _ => [.label]
  | .jumpRegister _ => [.register]
  | .halt => []

/-- The number of operands. -/
def arity (op : Opcode) : Nat :=
  op.operands.length

/-- The first operand names the register that receives the result. -/
def writesFirst (op : Opcode) : Bool :=
  match op.opcodeClass with
  | .load | .register | .immediate => true
  | .store | .jump | .halt => false

/-- The operation on words that the opcode performs, if it performs one. -/
def aluOp? : Opcode → Option AluOp
  | .register op | .immediate op _ => some op
  | _ => none

/-- **A mnemonic denotes its opcode, and nothing else denotes it.** -/
theorem ofMnemonic?_eq_some_iff (text : String) (op : Opcode) :
    ofMnemonic? text = some op ↔ text = op.mnemonic := by
  constructor
  · intro h
    rw [ofMnemonic?] at h
    have hname := List.find?_some h
    exact (beq_iff_eq.1 hname).symm
  · rintro rfl
    have hall : ∀ o ∈ all, ofMnemonic? o.mnemonic = some o := by decide
    exact hall op (mem_all op)

end Opcode

end Dlx
