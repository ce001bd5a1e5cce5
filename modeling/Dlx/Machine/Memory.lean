import Dlx.Word
import Std.Data.TreeMap

/-!
# Memory

Memory is sparse: a cell holds a word only after one has been written. Cells start at the addresses
that are multiples of four, so a write anywhere else is refused; a read anywhere else finds nothing.
-/

namespace Dlx

/-- The cells that hold a word. -/
structure Memory where
  cells : Std.TreeMap Address Word

namespace Memory

/-- The memory in which nothing has been written. -/
def empty : Memory := ⟨{}⟩

instance : Inhabited Memory := ⟨empty⟩

/-- The word in a cell. -/
def read (m : Memory) (a : Address) : Option Word :=
  m.cells[a]?

/-- Puts a word into a cell. -/
def write (m : Memory) (a : Address) (w : Word) : Except Misaligned Memory :=
  if Address.isAligned a then .ok ⟨m.cells.insert a w⟩ else .error ⟨a⟩

/-- Empties a cell. -/
def erase (m : Memory) (a : Address) : Memory :=
  ⟨m.cells.erase a⟩

/-- The number of cells that hold a word. -/
def size (m : Memory) : Nat :=
  m.cells.size

/-- No cell holds a word. -/
def isEmpty (m : Memory) : Bool :=
  m.cells.isEmpty

/-- The cells that hold a word, by address, with their words. -/
def toList (m : Memory) : List (Address × Word) :=
  m.cells.toList

/-- A cell reads what was written to it last. -/
theorem read_write (m n : Memory) (a b : Address) (w : Word) (h : m.write a w = .ok n) :
    n.read b = if b = a then some w else m.read b := by
  rw [write] at h
  split at h
  · obtain rfl := Except.ok.inj h
    simp only [read, Std.TreeMap.getElem?_insert, Std.LawfulEqCmp.compare_eq_iff_eq]
    by_cases hab : b = a
    · simp [hab]
    · simp [hab, Ne.symm hab]
  · exact absurd h (by simp)

/-- An emptied cell reads nothing. -/
theorem read_erase (m : Memory) (a b : Address) :
    (m.erase a).read b = if b = a then none else m.read b := by
  simp only [read, erase, Std.TreeMap.getElem?_erase, Std.LawfulEqCmp.compare_eq_iff_eq]
  by_cases hab : b = a
  · simp [hab]
  · simp [hab, Ne.symm hab]

end Memory

end Dlx
