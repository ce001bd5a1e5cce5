import Dlx.Machine.Fault
import Std.Data.TreeMap

/-!
# The tally of jumps

While a program runs, every jump from one line to another is counted. A jump that would exceed the
limit is counted too, and refused. Lines are the indices up to the length of the program, that length
included, since a jump may lead just past the last line.
-/

namespace Dlx

/-! ## §1 Jumps -/

/-- A jump from one line to another. -/
structure Jump where
  source : Nat
  target : Nat
  deriving DecidableEq, Repr

/-- Jumps are ordered by source, then by target. -/
def Jump.order : Jump → Jump → Ordering :=
  compareLex (compareOn Jump.source) (compareOn Jump.target)

instance : Std.TransCmp Jump.order :=
  inferInstanceAs (Std.TransCmp (compareLex (compareOn Jump.source) (compareOn Jump.target)))

instance : Std.LawfulEqCmp Jump.order where
  eq_of_compare {a b} h := by
    rw [Jump.order, compareLex_eq_eq] at h
    simp only [compareOn, Nat.compare_eq_eq] at h
    cases a
    cases b
    simp_all

/-! ## §2 The tally -/

/-- How many times each jump has been counted, and the bound below which lines lie. -/
structure JumpTally where
  bound : Nat
  counts : Std.TreeMap Jump Nat Jump.order

namespace JumpTally

/-- Line indices are 64-bit numbers; this is the greatest. -/
def greatestIndex : Nat := UInt64.size - 1

/-- Counts are 32-bit numbers and stop at the greatest. -/
def greatestCount : Nat := UInt32.size - 1

/-- The tally for a program of a given length, in which nothing has been counted. -/
def start (length : Nat) : JumpTally :=
  ⟨min (length + 1) greatestIndex, {}⟩

/-- How many times a jump has been counted. -/
def count (t : JumpTally) (j : Jump) : Nat :=
  t.counts.getD j 0

/-- The jump leads from a line of the program to a line of the program. -/
def InRange (t : JumpTally) (j : Jump) : Prop :=
  j.source < t.bound ∧ j.target < t.bound

instance (t : JumpTally) (j : Jump) : Decidable (t.InRange j) :=
  inferInstanceAs (Decidable (_ ∧ _))

/-- The tally after a jump has been counted once more. -/
def increment (t : JumpTally) (j : Jump) : JumpTally :=
  { t with counts := t.counts.insert j (min (t.count j + 1) greatestCount) }

/-- Counts a jump. It is refused if it has been counted more often than the limit allows. -/
def record (t : JumpTally) (j : Jump) (limit : Nat) : Except Fault Unit × JumpTally :=
  if t.InRange j then
    let t' := t.increment j
    if limit < t'.count j then (.error (.tooManyJumps j.source j.target), t') else (.ok (), t')
  else (.error (.jumpOutOfRange (Word.ofIndex j.target)), t)

/-- The tally with nothing counted. -/
def clear (t : JumpTally) : JumpTally :=
  { t with counts := {} }

/-- The number of different jumps that have been counted. -/
def edges (t : JumpTally) : Nat :=
  t.counts.size

/-- The sum of all counts. -/
def total (t : JumpTally) : Nat :=
  (t.counts.toList.map Prod.snd).foldl (· + ·) 0

/-- Counting a jump changes no other count. -/
theorem count_increment (t : JumpTally) (j k : Jump) :
    (t.increment j).count k = if k = j then min (t.count j + 1) greatestCount else t.count k := by
  simp only [count, increment, Std.TreeMap.getD_insert, Std.LawfulEqCmp.compare_eq_iff_eq]
  by_cases hkj : k = j
  · simp [hkj]
  · simp [hkj, Ne.symm hkj]

end JumpTally

end Dlx
