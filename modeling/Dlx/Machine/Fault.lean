import Dlx.Instruction

/-!
# Faults

What can go wrong while one instruction is carried out.
-/

namespace Dlx

/-- A place that may hold a word. -/
inductive Cell where
  | register (r : Register)
  | memory (a : Address)
  deriving DecidableEq, Repr

/-- The text of a place in messages. -/
def Cell.text : Cell → String
  | .register r => "Register entry \"" ++ r.name ++ "\""
  | .memory a => "Memory entry \"" ++ Word.text a ++ "\""

/-- The ways in which an instruction fails. -/
inductive Fault where
  | noValue (cell : Cell)
  | invalidAddress (address : Int) (operand : Indirect)
  | labelNotFound (label : String)
  | tooManyJumps (source target : Nat)
  | jumpOutOfRange (target : Word)
  deriving DecidableEq, Repr

/-- The wording of a fault; lines are counted from one in it. -/
def Fault.message : Fault → String
  | .noValue cell => cell.text ++ " does not contain a number"
  | .invalidAddress address operand =>
    "The memory address \"" ++ Decimal.ofInt address ++ "\" is not valid. " ++
      "It was calculated from \"" ++ operand.text ++ "\""
  | .labelNotFound label => "Label \"" ++ label ++ "\" not found"
  | .tooManyJumps source target =>
    "The interpreter jumped from line " ++ Decimal.ofNat (source + 1) ++ " to line " ++
      Decimal.ofNat (target + 1) ++ " too many times. You are probably in a loop. " ++
      "If not, raise the maximum jumps in the options"
  | .jumpOutOfRange target => "Jump target " ++ target.text ++ " is outside the program"

end Dlx
