import Dlx.Register
import Dlx.Word

/-!
# The register file

Every register holds a word or nothing yet. `R0` always reads zero; what is written to it is dropped,
so that its slot stays empty and two register files are equal exactly if they read the same.
-/

namespace Dlx

/-- The contents of the registers. -/
structure RegisterFile where
  slots : Vector (Option Word) 32
  deriving DecidableEq

namespace RegisterFile

/-- The register file in which nothing has been written. -/
def empty : RegisterFile :=
  ⟨Vector.replicate 32 none⟩

instance : Inhabited RegisterFile := ⟨empty⟩

/-- The word that a register holds. -/
def read (f : RegisterFile) (r : Register) : Option Word :=
  if r.isZero then some 0 else f.slots[r.index]

/-- Puts a word into a register. -/
def write (f : RegisterFile) (r : Register) (w : Word) : RegisterFile :=
  if r.isZero then f else ⟨f.slots.set r.index (some w)⟩

/-- Empties a register. -/
def erase (f : RegisterFile) (r : Register) : RegisterFile :=
  if r.isZero then f else ⟨f.slots.set r.index none⟩

/-- The registers that hold a word, by index, with their words. -/
def toList (f : RegisterFile) : List (Register × Word) :=
  Register.all.filterMap fun r => (f.read r).map (r, ·)

@[simp]
theorem read_zero (f : RegisterFile) : f.read .zero = some 0 := rfl

/-- A register other than `R0` reads what was written to it last. -/
theorem read_write (f : RegisterFile) (r q : Register) (w : Word) :
    (f.write r w).read q = if q = r ∧ r ≠ .zero then some w else f.read q := by
  by_cases hr : r = .zero
  · simp [write, Register.isZero, hr]
  · by_cases hq : q = .zero
    · have hne : ¬ (q = r ∧ r ≠ .zero) := fun h => hr (h.1 ▸ hq)
      rw [if_neg hne, hq, read_zero, read_zero]
    · by_cases hqr : q = r
      · subst hqr
        simp [read, write, Register.isZero, hr]
      · have hindex : (r.index : Nat) ≠ q.index := fun h =>
          hqr (by cases q; cases r; simp_all [Fin.ext_iff])
        simp [read, write, Register.isZero, hr, hq, hqr, Vector.getElem_set_ne, hindex]

/-- An emptied register reads nothing, except for `R0`. -/
theorem read_erase (f : RegisterFile) (r q : Register) :
    (f.erase r).read q = if q = r ∧ r ≠ .zero then none else f.read q := by
  by_cases hr : r = .zero
  · simp [erase, Register.isZero, hr]
  · by_cases hqr : q = r
    · subst hqr
      simp [read, erase, Register.isZero, hr]
    · have hindex : (r.index : Nat) ≠ q.index := fun h =>
        hqr (by cases q; cases r; simp_all [Fin.ext_iff])
      simp [read, erase, Register.isZero, hr, hqr, Vector.getElem_set_ne, hindex]

end RegisterFile

end Dlx
