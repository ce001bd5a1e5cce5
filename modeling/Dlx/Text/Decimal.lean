/-!
# Decimal numerals

Reading and writing of integers in decimal digits. A numeral is written with the fewest digits and
with a minus sign if it is negative. Reading is more liberal: leading zeros are allowed, and there
are two grammars for the sign, since an operand of an instruction may carry a minus sign only,
whereas a value given by a user may carry a plus sign too.

Only the digits `0` to `9` are digits.
-/

namespace Dlx.Decimal

/-! ## §1 Writing -/

/-- The digits of a natural number. -/
def ofNat (n : Nat) : String :=
  String.ofList (Nat.toDigits 10 n)

/-- The digits of an integer, behind a minus sign if it is negative. -/
def ofInt : Int → String
  | .ofNat n => ofNat n
  | .negSucc n => "-" ++ ofNat (n + 1)

@[simp]
theorem toList_ofNat (n : Nat) : (ofNat n).toList = Nat.toDigits 10 n := by
  simp [ofNat]

/-! ## §2 Reading -/

/-- The value of a non-empty text of digits. -/
def nat? (cs : List Char) : Option Nat :=
  if cs ≠ [] ∧ cs.all Char.isDigit then some (Nat.ofDigitChars 10 cs 0) else none

/-- The value of digits behind an optional minus sign. -/
def int? : List Char → Option Int
  | '-' :: digits => (nat? digits).map fun n => -(n : Int)
  | digits => (nat? digits).map fun n => (n : Int)

/-- The value of digits behind an optional sign. -/
def signed? : List Char → Option Int
  | '+' :: digits => (nat? digits).map fun n => (n : Int)
  | cs => int? cs

/-- **What is written is read back.** -/
theorem nat?_toDigits (n : Nat) : nat? (Nat.toDigits 10 n) = some n := by
  have hdigits : (Nat.toDigits 10 n).all Char.isDigit = true :=
    List.all_eq_true.2 fun _ h => Nat.isDigit_of_mem_toDigits (by omega) (by omega) h
  simp [nat?, hdigits, Nat.ofDigitChars_toDigits]

/-- What is written is read back, with its sign. -/
theorem int?_toList_ofInt (i : Int) : int? (ofInt i).toList = some i := by
  cases i with
  | ofNat n =>
    simp only [ofInt, toList_ofNat, int?]
    split
    · -- No digit is a minus sign.
      rename_i digits hminus
      have hdigit := Nat.isDigit_of_mem_toDigits (b := 10) (n := n) (c := '-') (by omega) (by omega)
        (by simp [hminus])
      exact absurd hdigit (by decide)
    · simp [nat?_toDigits]
  | negSucc n =>
    simp only [ofInt, String.toList_append, toList_ofNat]
    change (nat? (Nat.toDigits 10 (n + 1))).map (fun k => -(k : Int)) = some (Int.negSucc n)
    rw [nat?_toDigits]
    rfl

/-! ## §3 Values that say what is wrong -/

/-- The ways in which a text fails to be a numeral within bounds. -/
inductive Flaw where
  | empty
  | badDigit
  | tooLarge
  | tooSmall
  deriving DecidableEq, Repr

/-- The wording of a flaw. -/
def Flaw.message : Flaw → String
  | .empty => "cannot parse integer from empty string"
  | .badDigit => "invalid digit found in string"
  | .tooLarge => "number too large to fit in target type"
  | .tooSmall => "number too small to fit in target type"

/-- Reads digits of a given sign. They are read from the left, so a run of digits that leaves the
bounds is reported before a character behind it that is no digit. -/
def bounded (low high : Int) (negative : Bool) (cs : List Char) : Except Flaw Int :=
  let run := cs.takeWhile Char.isDigit
  -- A value that leaves the bounds does not come back to them with further digits.
  let size : Int := Nat.ofDigitChars 10 run 0
  let value := if negative then -size else size
  if high < value then .error .tooLarge
  else if value < low then .error .tooSmall
  else if run = [] ∨ run ≠ cs then .error .badDigit
  else .ok value

/-- Reads digits behind an optional sign, whose value lies between two bounds. -/
def within (low high : Int) : List Char → Except Flaw Int
  | [] => .error .empty
  | '+' :: cs => bounded low high false cs
  | '-' :: cs => bounded low high true cs
  | cs => bounded low high false cs

end Dlx.Decimal
