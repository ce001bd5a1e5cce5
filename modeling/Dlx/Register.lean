import Dlx.Text.Decimal

/-!
# Registers

The machine has thirty-two registers, named `R0` to `R31`. `R0` always reads zero, and `R31`
receives the return line of a linking jump.

A register's name is the letter `R` and its index in digits; leading zeros are allowed when it is
read.
-/

namespace Dlx

/-- One of the thirty-two registers. -/
structure Register where
  index : Fin 32
  deriving DecidableEq, Repr

namespace Register

/-! ## §1 The registers -/

/-- The register that always reads zero. -/
def zero : Register := ⟨0⟩

/-- The register that receives return lines. -/
def link : Register := ⟨31⟩

/-- The register of an index, if there is one. -/
def ofNat? (n : Nat) : Option Register :=
  if h : n < 32 then some ⟨⟨n, h⟩⟩ else none

/-- All registers, by index. -/
def all : List Register :=
  (List.finRange 32).map Register.mk

/-- The test for the register that always reads zero. -/
def isZero (r : Register) : Bool :=
  r == zero

/-- The canonical name of a register. -/
def name (r : Register) : String :=
  "R" ++ Decimal.ofNat r.index

theorem mem_all (r : Register) : r ∈ all :=
  List.mem_map.2 ⟨r.index, List.mem_finRange _, rfl⟩

@[simp]
theorem ofNat?_index (r : Register) : ofNat? r.index = some r := by
  simp [ofNat?]

/-! ## §2 Names -/

/-- The ways in which a text or a number fails to denote a register. -/
inductive Flaw where
  | malformed (text : String)
  | outOfRange (index : Nat)
  deriving DecidableEq, Repr

/-- The wording of a flaw. -/
def Flaw.message : Flaw → String
  | .malformed text => "Register address expected, got \"" ++ text ++ "\""
  | .outOfRange index =>
    "Invalid register index: " ++ Decimal.ofNat index ++ " (valid range: 0-31)"

/-- Indices are read as 32-bit numbers; a numeral at or above this bound is no index at all. -/
def indexBound : Nat := UInt32.size

/-- The value of an index in digits. -/
def index? (cs : List Char) : Option Nat :=
  (Decimal.nat? cs).filter (· < indexBound)

/-- The register of an index. -/
def ofIndex (n : Nat) : Except Flaw Register :=
  match ofNat? n with
  | some r => .ok r
  | none => .error (.outOfRange n)

/-- The register that a name denotes. -/
def ofName (text : String) : Except Flaw Register :=
  match text.toList with
  | 'R' :: digits =>
    match index? digits with
    | some n => ofIndex n
    | none => .error (.malformed text)
  | _ => .error (.malformed text)

end Register

end Dlx
