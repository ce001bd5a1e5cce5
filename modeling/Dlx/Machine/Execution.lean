import Dlx.Machine.JumpTally
import Dlx.Machine.State
import Dlx.Program

/-!
# Carrying out an instruction

An instruction is carried out in two parts. First it reads registers, memory and the labels of its
program, and this gives the one effect it is going to have; here most faults arise. Then the effect is
performed; a jump is counted before anything is changed, and the count may refuse it.

The effect of a jump with a link is to put the index of the next line into `R31` and to go on at the
target. The target of a jump through a register is read before the link is written.
-/

namespace Dlx

/-! ## §1 Effects -/

/-- What an instruction is going to do, all values being known. -/
inductive Effect where
  | write (rd : Register) (w : Word)
  | store (target : Indirect) (a : Address) (w : Word)
  | jump (target : Nat) (linking : Bool)
  | pass
  | halt
  deriving DecidableEq, Repr

namespace State

/-- The word in a register; there must be one. -/
def fetch (s : State) (r : Register) : Except Fault Word :=
  match s.registers.read r with
  | some w => .ok w
  | none => .error (.noValue (.register r))

/-- The word in a memory cell; there must be one. -/
def fetchMemory (s : State) (a : Address) : Except Fault Word :=
  match s.memory.read a with
  | some w => .ok w
  | none => .error (.noValue (.memory a))

/-- The address of an operand in memory. The sum is that of the integers, without wrapping; it must
be a word, and a cell must start there. -/
def address (s : State) (operand : Indirect) : Except Fault Address := do
  let base ← s.fetch operand.base
  let sum := operand.offset.toInt + base.toInt
  match (Word.ofInt? sum).filter Address.isAligned with
  | some a => return a
  | none => throw (.invalidAddress sum operand)

end State

/-- The line of a label. -/
def Program.find (p : Program) (label : String) : Except Fault Nat :=
  match p.resolve? label with
  | some line => .ok line
  | none => .error (.labelNotFound label)

/-- The line whose index is a word; the index just past the last line is allowed. -/
def Program.lineOfWord (p : Program) (w : Word) : Except Fault Nat :=
  if 0 ≤ w.toInt ∧ w.toInt ≤ p.size then .ok w.toInt.toNat else .error (.jumpOutOfRange w)

/-- The effect of an instruction. -/
def Instruction.effect (p : Program) (s : State) : Instruction → Except Fault Effect
  | .load rd source => do
    let a ← s.address source
    let w ← s.fetchMemory a
    return .write rd w
  | .store target rs => do
    let a ← s.address target
    let w ← s.fetch rs
    return .store target a w
  | .register op rd rs1 rs2 => do
    let a ← s.fetch rs1
    let b ← s.fetch rs2
    return .write rd (op.eval a b)
  | .immediate op rd rs1 value => do
    let a ← s.fetch rs1
    return .write rd (op.eval a value)
  | .branch condition rs label => do
    -- The label must exist even if the branch is not taken.
    let target ← p.find label
    let w ← s.fetch rs
    return if condition.holds w then .jump target false else .pass
  | .jump linking label => do
    let target ← p.find label
    return .jump target linking
  | .jumpRegister linking rs => do
    let w ← s.fetch rs
    let target ← p.lineOfWord w
    return .jump target linking
  | .halt => return .halt

/-! ## §2 Performing an effect -/

/-- How the program goes on after an instruction. -/
inductive Flow where
  | next
  | halt
  deriving DecidableEq, Repr

/-- A tally of jumps and the limit that it enforces. -/
structure JumpGuard where
  tally : JumpTally
  limit : Nat

/-- The guard for a program of a given length, before any jump. -/
def JumpGuard.start (length limit : Nat) : JumpGuard :=
  ⟨.start length, limit⟩

/-- What is there after an instruction: how the program goes on or why it does not, the state, and
the guard over its jumps if there is one. -/
structure Execution where
  result : Except Fault Flow
  state : State
  guard : Option JumpGuard

/-- Counts a jump if there is a guard. -/
def countJump (j : Jump) : Option JumpGuard → Except Fault Unit × Option JumpGuard
  | none => (.ok (), none)
  | some g =>
    let (verdict, tally) := g.tally.record j g.limit
    (verdict, some { g with tally })

/-- The state after a jump from a line has been allowed. -/
def State.jump (s : State) (line target : Nat) (linking : Bool) : State :=
  let linked := if linking then s.writeRegister .link (Word.ofIndex (line + 1)) else s
  linked.goto target

/-- Performs an effect of the instruction in a line. -/
def Effect.perform (line : Nat) (s : State) (guard : Option JumpGuard) : Effect → Execution
  | .write rd w => ⟨.ok .next, s.writeRegister rd w, guard⟩
  | .store target a w =>
    -- Memory refuses the addresses at which no cell starts, and such an address is no target.
    match s.memory.write a w with
    | .ok memory => ⟨.ok .next, { s with memory }, guard⟩
    | .error _ => ⟨.error (.invalidAddress a.toInt target), s, guard⟩
  | .jump target linking =>
    match countJump ⟨line, target⟩ guard with
    | (.ok _, guard) => ⟨.ok .next, s.jump line target linking, guard⟩
    | (.error fault, guard) => ⟨.error fault, s, guard⟩
  | .pass => ⟨.ok .next, s, guard⟩
  | .halt => ⟨.ok .halt, s, guard⟩

/-- Carries out an instruction of a line. -/
def Instruction.execute (p : Program) (line : Nat) (s : State) (guard : Option JumpGuard)
    (i : Instruction) : Execution :=
  match i.effect p s with
  | .ok effect => effect.perform line s guard
  | .error fault => ⟨.error fault, s, guard⟩

/-! ## §3 Dispatching a line -/

/-- Runs one line of a program. The next line is the one below it unless the instruction jumps; after
a fault it is the same line again. -/
def State.dispatch (p : Program) (line : Nat) (s : State) (guard : Option JumpGuard) : Execution :=
  match p.instruction? line with
  | none => ⟨.ok .next, s.goto (line + 1), guard⟩
  | some i =>
    let e := i.execute p line (s.goto (line + 1)) guard
    match e.result with
    | .ok _ => e
    | .error _ => { e with state := e.state.goto line }

end Dlx
