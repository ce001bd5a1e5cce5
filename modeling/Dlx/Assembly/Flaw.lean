import Dlx.Opcode

/-!
# What can be wrong with a source line

One constructor for each cause, and the wording of each.
-/

namespace Dlx.Assembly

/-- The ways in which a source line is no line of a program. -/
inductive Flaw where
  | labelWithBlank (label : String)
  | emptyLabel
  | duplicateLabel (label : String) (firstLine : Nat)
  | unknownOpcode (text : String)
  | argumentCount (opcode : String) (expected found : Nat)
  | operandExpected (kind : OperandKind) (position : Nat) (found : String)
  | immediateExpected (position : Nat) (found : String)
  | labelExpected (position : Nat)
  | registerOutOfRange (text : String)
  | readOnly
  deriving DecidableEq, Repr

/-- The word for the position of an argument, counted from one. -/
def ordinal : Nat → String
  | 1 => "first"
  | 2 => "second"
  | 3 => "third"
  | _ => "an extra"

/-- The wording of a flaw. -/
def Flaw.message : Flaw → String
  | .labelWithBlank label => "Label \"" ++ label ++ "\" does contain whitespace"
  | .emptyLabel => "Empty label before ':'"
  | .duplicateLabel label firstLine =>
    "You used \"" ++ label ++ "\" at line " ++ Decimal.ofNat (firstLine + 1) ++ " before"
  | .unknownOpcode text => "Opcode \"" ++ text ++ "\" not found"
  | .argumentCount opcode expected found =>
    opcode ++ " needs " ++ Decimal.ofNat expected ++ " arguments, but got " ++ Decimal.ofNat found
  | .operandExpected kind position found =>
    "A " ++ kind.text ++ " address was expected as " ++ ordinal position ++
      " argument, but got \"" ++ found ++ "\""
  | .immediateExpected position found =>
    "An immediate value was expected as " ++ ordinal position ++ " argument, but got \"" ++
      found ++ "\""
  | .labelExpected position =>
    "A label was expected as " ++ ordinal position ++ " argument, but got an empty argument"
  | .registerOutOfRange text => "Invalid register \"" ++ text ++ "\" (valid range: R0-R31)"
  | .readOnly => "R0 is read-only"

end Dlx.Assembly
