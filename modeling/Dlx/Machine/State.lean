import Dlx.Machine.Memory
import Dlx.Machine.RegisterFile

/-!
# The state of the machine

Registers, memory, and the index of the line that is next.
-/

namespace Dlx

/-- What the instructions of a program read and change. -/
structure State where
  registers : RegisterFile
  memory : Memory
  pc : Nat

namespace State

/-- Nothing has been written, and the first line is next. -/
def initial : State :=
  ⟨.empty, .empty, 0⟩

instance : Inhabited State := ⟨initial⟩

/-- The state with another line next. -/
def goto (s : State) (line : Nat) : State :=
  { s with pc := line }

/-- The state with a word put into a register. -/
def writeRegister (s : State) (r : Register) (w : Word) : State :=
  { s with registers := s.registers.write r w }

@[simp]
theorem pc_goto (s : State) (line : Nat) : (s.goto line).pc = line := rfl

@[simp]
theorem registers_goto (s : State) (line : Nat) : (s.goto line).registers = s.registers := rfl

@[simp]
theorem memory_goto (s : State) (line : Nat) : (s.goto line).memory = s.memory := rfl

@[simp]
theorem goto_pc (s : State) : s.goto s.pc = s := rfl

@[simp]
theorem goto_goto (s : State) (k l : Nat) : (s.goto k).goto l = s.goto l := rfl

end State

end Dlx
