import Dlx.Text.Decimal

/-!
# Words and addresses

A word is a signed 32-bit integer with wrapping arithmetic. An address is a word too; a memory cell
starts at every address that is a multiple of four, negative ones included.
-/

namespace Dlx

/-- The contents of a register or of a memory cell. -/
abbrev Word := Int32

/-- The place of a memory cell. -/
abbrev Address := Int32

namespace Word

/-! ## §1 Words and integers -/

/-- The least integer that is a word. -/
def least : Int := -2147483648

/-- The greatest integer that is a word. -/
def greatest : Int := 2147483647

/-- The word of an integer within range. -/
def ofInt? (i : Int) : Option Word :=
  if least ≤ i ∧ i ≤ greatest then some (Int32.ofInt i) else none

/-- The word of an index, or the greatest word if the index lies above it. -/
def ofIndex (n : Nat) : Word :=
  Int32.ofInt (min (n : Int) greatest)

/-- The numeral of a word. -/
def text (w : Word) : String :=
  Decimal.ofInt w.toInt

/-- **An integer within range is the value of its word.** -/
theorem toInt_of_ofInt? (i : Int) (w : Word) (h : ofInt? i = some w) : w.toInt = i := by
  rw [ofInt?] at h
  split at h
  · rename_i hi
    obtain rfl := Option.some.inj h
    simp only [least, greatest] at hi
    exact Int32.toInt_ofInt_of_le (by omega) (by omega)
  · exact absurd h (by simp)

/-- The value of a word is within range. -/
theorem toInt_range (w : Word) : least ≤ w.toInt ∧ w.toInt ≤ greatest := by
  have hlow := w.le_toInt
  have hhigh := w.toInt_lt
  simp only [least, greatest]
  omega

/-- Every word is the word of its value. -/
theorem ofInt?_toInt (w : Word) : ofInt? w.toInt = some w := by
  rw [ofInt?, if_pos (toInt_range w), Int32.ofInt_toInt]

/-- **A word is read back from its value, and from nothing else.** -/
theorem ofInt?_eq_some_iff (i : Int) (w : Word) : ofInt? i = some w ↔ w.toInt = i := by
  constructor
  · exact toInt_of_ofInt? i w
  · rintro rfl
    exact ofInt?_toInt w

end Word

/-! ## §2 Alignment -/

/-- A cell starts at the address. -/
def Address.isAligned (a : Address) : Bool :=
  a.toInt % 4 == 0

/-- An address at which no cell starts. -/
structure Misaligned where
  address : Address
  deriving DecidableEq, Repr

/-- The wording of the error. -/
def Misaligned.message (e : Misaligned) : String :=
  "Memory address " ++ Word.text e.address ++ " is not a multiple of 4"

/-- An address at which a cell starts, or the error that says that none does. -/
def Address.aligned (a : Address) : Except Misaligned Address :=
  if a.isAligned then .ok a else .error ⟨a⟩

end Dlx
