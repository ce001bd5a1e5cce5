import Mathlib.Algebra.Group.Int.Defs
import Mathlib.Algebra.Group.Nat.Defs
import Dlx.Alu

/-!
# What the operations do to integers

The operations of the arithmetic and logic unit are carried out on machine words. Here they are said in
terms of the integers that are the values of the words: sums, differences, products and shifts to the left
wrap around, logic is that of the two's-complement bits, shifts to the right divide and round down, and
comparisons are those of the integers.

- **§1** wrapping around (`Word.Wrapped`)
- **§2** two's-complement bits (`Word.bit`)
- **§3** shifts, by an amount modulo 32 (`Word.shiftAmount`)
- **§4** the operations (`AluOp.Yields`)
-/

namespace Dlx

namespace Word

/-! ## §1 Wrapping around -/

/-- The value of a word that is congruent to an integer modulo 2^32. -/
structure Wrapped (i w : Int) : Prop where
  least_le : least ≤ w
  le_greatest : w ≤ greatest
  congruent : w % 2 ^ 32 = i % 2 ^ 32

/-- **Every integer wraps around to exactly one value**, its balanced remainder. -/
theorem wrapped_iff (i w : Int) : Wrapped i w ↔ w = i.bmod (2 ^ 32) := by
  constructor
  · rintro ⟨hlow, hhigh, hcongruent⟩
    simp only [least, greatest] at hlow hhigh
    rw [Int.bmod_def]
    omega
  · rintro rfl
    refine ⟨?_, ?_, Int.bmod_emod⟩
    · rw [least, Int.bmod_def]
      omega
    · rw [greatest, Int.bmod_def]
      omega

/-- The bits of a word, as an unsigned number. -/
theorem toNat_toBitVec (w : Word) : (w.toBitVec.toNat : Int) = w.toInt % 2 ^ 32 := by
  have hcond := BitVec.toInt_eq_toNat_cond w.toBitVec
  have hlt := w.toBitVec.isLt
  rw [Int32.toInt_toBitVec] at hcond
  split at hcond <;> omega

/-! ## §2 Bits -/

/-- A two's-complement bit of an integer; the lowest one is bit zero. An integer has a bit at every place:
beyond those of its word they repeat its sign. -/
def bit (i : Int) (n : Nat) : Bool :=
  i / 2 ^ n % 2 == 1

/-- A bit of a word is found in the lowest place after an arithmetic shift. -/
theorem bit_toInt (w : Word) (n : Nat) : bit w.toInt n = (w.toBitVec.sshiftRight n).getLsbD 0 := by
  have hshift := BitVec.toInt_sshiftRight (x := w.toBitVec) (n := n)
  rw [Int32.toInt_toBitVec, Int.shiftRight_eq_div_pow] at hshift
  have hcond := BitVec.toInt_eq_toNat_cond (w.toBitVec.sshiftRight n)
  rw [hshift] at hcond
  -- Odd or even is the same of a word and of its bits as an unsigned number.
  have hparity : w.toInt / ((2 ^ n : Nat) : Int) % 2 = (w.toBitVec.sshiftRight n).toNat % 2 := by
    split at hcond <;> omega
  rw [bit, BitVec.getLsbD, Nat.testBit_zero, Bool.eq_iff_iff, beq_iff_eq, decide_eq_true_eq]
  push_cast at hparity
  omega

/-- **A word is determined by its bits.** -/
theorem eq_of_bit_eq {v w : Word} (h : ∀ n, bit v.toInt n = bit w.toInt n) : v = w := by
  apply Int32.toBitVec_inj.1
  apply BitVec.eq_of_getLsbD_eq
  intro n hn
  have hbit := h n
  rw [bit_toInt, bit_toInt, BitVec.getLsbD_sshiftRight, BitVec.getLsbD_sshiftRight] at hbit
  simpa [hn] using hbit

theorem bit_and (v w : Word) (n : Nat) :
    bit (v &&& w).toInt n = (bit v.toInt n && bit w.toInt n) := by
  rw [bit_toInt, bit_toInt, bit_toInt, Int32.toBitVec_and, BitVec.sshiftRight_and_distrib,
    BitVec.getLsbD_and]

theorem bit_or (v w : Word) (n : Nat) :
    bit (v ||| w).toInt n = (bit v.toInt n || bit w.toInt n) := by
  rw [bit_toInt, bit_toInt, bit_toInt, Int32.toBitVec_or, BitVec.sshiftRight_or_distrib,
    BitVec.getLsbD_or]

theorem bit_xor (v w : Word) (n : Nat) :
    bit (v ^^^ w).toInt n = (bit v.toInt n ^^ bit w.toInt n) := by
  rw [bit_toInt, bit_toInt, bit_toInt, Int32.toBitVec_xor, BitVec.sshiftRight_xor_distrib,
    BitVec.getLsbD_xor]

/-! ## §3 Shifts -/

/-- By how many places an operand shifts. -/
def shiftAmount (i : Int) : Nat :=
  (i % 32).toNat

theorem toNat_smod (w : Word) : (w.toBitVec.smod 32).toNat = shiftAmount w.toInt := by
  have hsmod : (w.toBitVec.smod 32).toInt = w.toInt % 32 := by
    rw [BitVec.toInt_smod]
    exact Int.fmod_eq_emod_of_nonneg _ (by decide)
  have hcond := BitVec.toInt_eq_toNat_cond (w.toBitVec.smod 32)
  rw [shiftAmount, ← hsmod]
  split at hcond <;> omega

/-- The amount is the same if the operand is taken for an unsigned number. -/
theorem toNat_umod (w : Word) : (w.toBitVec % 32).toNat = shiftAmount w.toInt := by
  have hunsigned := toNat_toBitVec w
  have hmod : (w.toBitVec % 32).toNat = w.toBitVec.toNat % 32 := BitVec.toNat_umod
  rw [shiftAmount]
  omega

/-- **A shift to the left** multiplies and wraps around. -/
theorem toInt_shiftLeft (v w : Word) :
    (v <<< w).toInt = (v.toInt * 2 ^ shiftAmount w.toInt).bmod (2 ^ 32) := by
  have hvalue : v.toInt = (v.toBitVec.toNat : Int).bmod (2 ^ 32) := by
    rw [← Int32.toInt_toBitVec, BitVec.toInt_eq_toNat_bmod]
  rw [← Int32.toInt_toBitVec, Int32.toBitVec_shiftLeft, BitVec.shiftLeft_eq', toNat_smod,
    BitVec.toInt_shiftLeft, Nat.shiftLeft_eq, hvalue, Int.bmod_mul_bmod]
  push_cast
  rfl

/-- **An arithmetic shift to the right** divides and rounds down. -/
theorem toInt_shiftRight (v w : Word) :
    (v >>> w).toInt = v.toInt.fdiv (2 ^ shiftAmount w.toInt) := by
  rw [← Int32.toInt_toBitVec, Int32.toBitVec_shiftRight, BitVec.toInt_sshiftRight', toNat_smod,
    Int32.toInt_toBitVec, Int.shiftRight_eq_div_pow, Int.fdiv_eq_ediv_of_nonneg]
  · push_cast
    rfl
  · exact Int.pow_nonneg (by decide)

/-- **A logical shift to the right** divides the unsigned number with the same bits. -/
theorem toInt_logicalShiftRight (v w : Word) :
    (v.toUInt32 >>> w.toUInt32).toInt32.toInt =
      ((v.toInt % 2 ^ 32).fdiv (2 ^ shiftAmount w.toInt)).bmod (2 ^ 32) := by
  have hbits : (v.toUInt32 >>> w.toUInt32).toInt32.toBitVec =
      v.toBitVec >>> (w.toBitVec % 32) := rfl
  rw [← Int32.toInt_toBitVec, hbits, BitVec.toInt_eq_toNat_bmod, BitVec.ushiftRight_eq', toNat_umod,
    BitVec.toNat_ushiftRight, Nat.shiftRight_eq_div_pow, Int.fdiv_eq_ediv_of_nonneg,
    ← toNat_toBitVec]
  · push_cast
    rfl
  · exact Int.pow_nonneg (by decide)

end Word

/-! ## §4 The operations -/

namespace AluOp

/-- What an operation makes of two integers. -/
def Yields (op : AluOp) (a b w : Int) : Prop :=
  match op with
  | .add => Word.Wrapped (a + b) w
  | .sub => Word.Wrapped (a - b) w
  | .mult => Word.Wrapped (a * b) w
  | .and => ∀ n, Word.bit w n = (Word.bit a n && Word.bit b n)
  | .or => ∀ n, Word.bit w n = (Word.bit a n || Word.bit b n)
  | .xor => ∀ n, Word.bit w n = (Word.bit a n ^^ Word.bit b n)
  | .sll => Word.Wrapped (a * 2 ^ Word.shiftAmount b) w
  | .sra => w = a.fdiv (2 ^ Word.shiftAmount b)
  | .srl => Word.Wrapped ((a % 2 ^ 32).fdiv (2 ^ Word.shiftAmount b)) w
  | .slt => w = if a < b then 1 else 0
  | .sle => w = if a ≤ b then 1 else 0
  | .seq => w = if a = b then 1 else 0
  | .sne => w = if a ≠ b then 1 else 0

/-- A comparison of words gives the truth value of one of integers that says the same. -/
theorem toInt_truth {P Q : Prop} [Decidable P] [Decidable Q] (h : P ↔ Q) :
    (truth (decide P)).toInt = if Q then 1 else 0 := by
  by_cases hQ : Q
  · rw [decide_eq_true (h.2 hQ), if_pos hQ]
    rfl
  · rw [decide_eq_false (mt h.1 hQ), if_neg hQ]
    rfl

/-- The result of an operation is what it makes of the values of its operands. -/
theorem yields_eval (op : AluOp) (a b : Word) : op.Yields a.toInt b.toInt (op.eval a b).toInt := by
  cases op with
  | add => exact (Word.wrapped_iff ..).2 (Int32.toInt_add a b)
  | sub => exact (Word.wrapped_iff ..).2 (Int32.toInt_sub a b)
  | mult => exact (Word.wrapped_iff ..).2 (Int32.toInt_mul a b)
  | and => exact Word.bit_and a b
  | or => exact Word.bit_or a b
  | xor => exact Word.bit_xor a b
  | sll => exact (Word.wrapped_iff ..).2 (Word.toInt_shiftLeft a b)
  | sra => exact Word.toInt_shiftRight a b
  | srl => exact (Word.wrapped_iff ..).2 (Word.toInt_logicalShiftRight a b)
  | slt => exact toInt_truth Int32.lt_iff_toInt_lt
  | sle => exact toInt_truth Int32.le_iff_toInt_le
  | seq => exact toInt_truth Int32.toInt_inj.symm
  | sne => exact toInt_truth (not_congr Int32.toInt_inj.symm)

/-- An operation makes one word at most of two integers. -/
theorem Yields.unique {op : AluOp} {a b : Int} {v w : Word} (hv : op.Yields a b v.toInt)
    (hw : op.Yields a b w.toInt) : v = w := by
  cases op with
  | add | sub | mult | sll | srl =>
    exact Int32.toInt_inj.1 (((Word.wrapped_iff ..).1 hv).trans ((Word.wrapped_iff ..).1 hw).symm)
  | and | or | xor => exact Word.eq_of_bit_eq fun n => (hv n).trans (hw n).symm
  | sra | slt | sle | seq | sne => exact Int32.toInt_inj.1 (hv.trans hw.symm)

/-- **The operations on words are those on integers.** For any two words, the result of an operation is
the one word whose value the operation makes of their values. -/
theorem eval_exact (op : AluOp) (a b w : Word) :
    op.eval a b = w ↔ op.Yields a.toInt b.toInt w.toInt := by
  constructor
  · rintro rfl
    exact op.yields_eval a b
  · exact (op.yields_eval a b).unique

example : eval .sll 1 (-31) = 2 ∧ eval .sra (-7) 33 = -4 ∧ eval .srl (-16) 28 = 15 := by decide

end AluOp

end Dlx
