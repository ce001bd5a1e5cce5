import Dlx.Opcode
import Dlx.Register
import Dlx.Text.Lines

/-!
# Tokens

The four shapes that the text of an operand may have, told apart without knowing which one is
wanted: a register `R7`, an immediate value `#-5`, a place in memory `8(R2)`, and a bare number
`1000`. A text has at most one shape, and a number that does not fit its range has none.

The index of a register is not checked against the register file here: `R40` is a register that
does not exist, which is another matter than not being a register at all.
-/

namespace Dlx.Assembly

/-- The text of an operand, read. -/
inductive Token where
  | register (index : Nat)
  | immediate (value : Word)
  | indirect (offset : Word) (base : Nat)
  | number (value : Word)
  deriving DecidableEq, Repr

namespace Token

/-! ## §1 Reading -/

/-- The word of digits behind an optional minus sign. -/
def word? (cs : List Char) : Option Word :=
  (Decimal.int? cs).bind Word.ofInt?

/-- The index of a register name. -/
def register? : List Char → Option Nat
  | 'R' :: digits => Register.index? digits
  | _ => none

/-- An offset and a base in parentheses, given the texts before and behind the opening one. -/
def indirect? (offset rest : List Char) : Option Token :=
  if rest.getLast? = some ')' then do
    let o ← word? offset
    let b ← register? rest.dropLast
    return .indirect o b
  else none

/-- The token of a text. -/
def read? (cs : List Char) : Option Token :=
  match cs with
  -- The first character decides, since neither a place in memory nor a number starts with these.
  | 'R' :: _ => (register? cs).map .register
  | '#' :: digits => (word? digits).map .immediate
  | _ =>
    match Text.cut? '(' cs with
    | some (offset, rest) => indirect? offset rest
    | none => (word? cs).map .number

/-- The token of a text. -/
def ofText? (text : String) : Option Token :=
  read? text.toList

/-! ## §2 Uses -/

/-- The kind of operand that a token can be. A bare number is none. -/
def kind? : Token → Option OperandKind
  | .register _ => some .register
  | .immediate _ => some .immediate
  | .indirect _ _ => some .indirect
  | .number _ => none

/-- The address that a bare number denotes, if a cell starts there. -/
def address? : Token → Option Address
  | .number a => if Address.isAligned a then some a else none
  | _ => none

end Token

/-- The address that a text denotes, if a cell starts there. -/
def addressOfText? (text : String) : Option Address :=
  (Token.ofText? text).bind Token.address?

end Dlx.Assembly
