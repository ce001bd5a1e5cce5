import Dlx.CommandLine.Assignment
import Dlx.Proofs.Assembly.RegisterName
import Dlx.Proofs.Machine.Cells

/-!
# Presets

Before a program runs, words are put into registers and memory cells, each by a text of its own. Such a
text goes through many hands: it is cut at an equals sign and trimmed, the value is read, and the name is
read as that of a register or as an address, and checked. What they accept together is a grammar: the name
of a cell, an equals sign and a value, with blanks anywhere around these.

- **§1** names of cells (`Cell.Named`)
- **§2** assignments (`Assignment.Presets`)
- **§3** what a preset does
-/

namespace Dlx

open Decimal (Numeral SignedNumeral ValueNumeral)
open Text (Blanks Trimmed)

/-! ## §1 Names of cells -/

/-- The texts by which a cell is called: the letter and the index of a register that is not `R0`, or an
address at which a cell starts. Both may have zeros in front. -/
inductive Cell.Named : Cell → List Char → Prop where
  | register {r : Register} {digits : List Char} :
      Numeral digits r.index → r ≠ .zero → Named (.register r) ('R' :: digits)
  | memory {a : Address} {cs : List Char} :
      SignedNumeral cs a.toInt → (4 : Int) ∣ a.toInt → Named (.memory a) cs

theorem Cell.Named.plain {cell : Cell} {cs : List Char} (h : cell.Named cs) :
    cs ≠ [] ∧ ∀ c ∈ cs, isPlain c = true := by
  cases h with
  | register hdigits _ =>
    refine ⟨by simp, fun c hc => ?_⟩
    rcases List.mem_cons.1 hc with rfl | hc
    · rfl
    · exact isPlain_of_isDigit (hdigits.isDigit c hc)
  | memory hcs _ =>
    obtain ⟨c, rest, rfl, -⟩ := hcs.head
    exact ⟨by simp, fun d hd => hcs.isPlain hd⟩

theorem Cell.Named.solid {cell : Cell} {cs : List Char} (h : cell.Named cs) :
    Text.Solid cs :=
  solid_of_plain h.plain.1 h.plain.2

/-- A cell starts at an address that has a name. -/
theorem Cell.Named.isAligned {a : Address} {cs : List Char} (h : (Cell.memory a).Named cs) :
    Address.isAligned a = true := by
  cases h with
  | memory _ hstarts => exact (Assembly.isAligned_iff_dvd a).2 hstarts

namespace Machine

/-- **A register can be written by the texts that name it.** -/
theorem writable_iff_named (text : String) (r : Register) :
    writable text = .ok r ↔ (Cell.register r).Named text.toList := by
  rw [writable_eq_ok_iff, Register.ofName_eq_iff]
  constructor
  · rintro ⟨hreading, hr⟩
    cases hreading with
    | register htext hdigits =>
      rw [htext]
      exact .register hdigits hr
  · intro hnamed
    generalize htext : text.toList = cs at hnamed
    cases hnamed with
    | register hdigits hr => exact ⟨.register htext hdigits, hr⟩

/-- **A memory cell is found by the texts that name it**, with blanks around them. -/
theorem addressNamed_iff_named (text : String) (a : Address) :
    addressNamed text = .ok a ↔ (Cell.memory a).Named (Text.trim text.toList) := by
  have haddress : addressNamed text = .ok a ↔
      Assembly.addressOfText? (String.ofList (Text.trim text.toList)) = some a := by
    rw [addressNamed]
    cases Assembly.addressOfText? (String.ofList (Text.trim text.toList)) <;> simp
  rw [haddress, Assembly.addressOfText?_eq_some_iff, String.toList_ofList]
  constructor
  · intro ⟨hwritten, hstarts⟩
    cases hwritten with
    | number hcs => exact .memory hcs hstarts
  · intro hnamed
    cases hnamed with
    | memory hcs hstarts => exact ⟨.number hcs, hstarts⟩

end Machine

/-! ## §2 Assignments -/

/-- A value is written with digits and perhaps one sign, so blanks do not belong to it. -/
theorem Decimal.ValueNumeral.trimmed {cs : List Char} {i : Int} (h : ValueNumeral cs i) :
    Trimmed cs := by
  have hblank : ∀ c ∈ cs, Text.isBlank c = false := by
    intro c hc
    cases h with
    | signed hcs => exact not_blank_of_isPlain (hcs.isPlain hc)
    | plus hcs =>
      rcases List.mem_cons.1 hc with rfl | hc
      · rfl
      · exact not_blank_of_isPlain (isPlain_of_isDigit (hcs.isDigit c hc))
  exact ⟨fun c hc => hblank c (List.mem_of_head? hc), fun c hc => hblank c (List.mem_of_getLast? hc)⟩

namespace Assignment

/-- **What is read as an assignment**: the text is cut at the first equals sign, with a name on the left
and the value on the right, and blanks around both. -/
theorem read_eq_ok_iff (text name : String) (w : Word) :
    read text = .ok ⟨name, w⟩ ↔ name ≠ "" ∧ ∃ front behind,
      text.toList = front ++ '=' :: behind ∧ '=' ∉ front ∧ Text.trim front = name.toList ∧
        ValueNumeral (Text.trim behind) w.toInt := by
  constructor
  · intro h
    unfold read at h
    split at h
    · exact absurd h (by simp)
    · rename_i front behind hcut
      obtain ⟨hequals, htext⟩ := (Text.cut?_eq_some_iff ..).1 hcut
      by_cases hname : Text.trim front = []
      · rw [if_pos hname] at h
        exact absurd h (by simp)
      · rw [if_neg hname] at h
        cases hvalue : Decimal.within Word.least Word.greatest (Text.trim behind) with
        | error flaw =>
          rw [hvalue] at h
          exact absurd h (by simp)
        | ok i =>
          rw [hvalue] at h
          obtain ⟨rfl, rfl⟩ := Assignment.mk.inj (Except.ok.inj h)
          obtain ⟨hnumeral, hrange⟩ := (Decimal.within_eq_ok_iff ..).1 hvalue
          refine ⟨by simpa using hname, front, behind, htext, hequals, by simp, ?_⟩
          rwa [Word.toInt_of_ofInt? i (Int32.ofInt i) (if_pos hrange)]
  · intro ⟨hne, front, behind, htext, hequals, hname, hvalue⟩
    have hsome : Text.trim front ≠ [] := by
      rw [hname]
      exact mt String.toList_eq_nil_iff.1 hne
    have hwithin : Decimal.within Word.least Word.greatest (Text.trim behind) = .ok w.toInt :=
      (Decimal.within_eq_ok_iff ..).2 ⟨hvalue, Word.toInt_range w⟩
    rw [read, (Text.cut?_eq_some_iff ..).2 ⟨hequals, htext⟩]
    simp only [if_neg hsome, hwithin]
    rw [hname, String.ofList_toList, Int32.ofInt_toInt]

/-- There are no blanks at the ends of a name that has been read. -/
theorem trim_name {text name : String} {w : Word} (h : read text = .ok ⟨name, w⟩) :
    Text.trim name.toList = name.toList := by
  obtain ⟨-, front, behind, -, -, hname, -⟩ := (read_eq_ok_iff ..).1 h
  rw [← hname]
  exact (Text.trimmed_trim front).trim_eq

/-- The texts that put a word into a cell: the name of the cell, an equals sign and a numeral of the word,
with blanks around the name and around the numeral. -/
def Presets (text : String) (cell : Cell) (w : Word) : Prop :=
  ∃ w₁ name w₂ w₃ value w₄, Blanks w₁ ∧ Blanks w₂ ∧ Blanks w₃ ∧ Blanks w₄ ∧
    cell.Named name ∧ ValueNumeral value w.toInt ∧
    text.toList = w₁ ++ (name ++ (w₂ ++ '=' :: (w₃ ++ (value ++ w₄))))

/-- **A text puts a word into a cell exactly if it is read as an assignment to a name of that cell.** -/
theorem presets_iff (text : String) (cell : Cell) (w : Word) :
    Presets text cell w ↔ ∃ name, read text = .ok ⟨name, w⟩ ∧ cell.Named name.toList := by
  constructor
  · intro ⟨w₁, name, w₂, w₃, value, w₄, hw₁, hw₂, hw₃, hw₄, hname, hvalue, htext⟩
    have hequals : '=' ∉ w₁ ++ (name ++ w₂) := by
      rw [List.mem_append, List.mem_append, not_or, not_or]
      exact ⟨Text.not_mem_blanks hw₁ rfl, not_mem_of_plain hname.plain.2 rfl,
        Text.not_mem_blanks hw₂ rfl⟩
    have hfront : Text.trim (w₁ ++ (name ++ w₂)) = name :=
      (Text.trim_eq_iff hname.solid.2 _).2 ⟨w₁, w₂, hw₁, hw₂, rfl⟩
    have hbehind : Text.trim (w₃ ++ (value ++ w₄)) = value :=
      (Text.trim_eq_iff hvalue.trimmed _).2 ⟨w₃, w₄, hw₃, hw₄, rfl⟩
    refine ⟨String.ofList name, (read_eq_ok_iff ..).2 ⟨?name, w₁ ++ (name ++ w₂),
      w₃ ++ (value ++ w₄), ?text, hequals, ?front, ?behind⟩, ?named⟩
    case name => simpa using hname.plain.1
    case text => rw [htext, List.append_assoc, List.append_assoc]
    case front => rw [hfront, String.toList_ofList]
    case behind => rwa [hbehind]
    case named => rwa [String.toList_ofList]
  · intro ⟨name, hread, hnamed⟩
    obtain ⟨-, front, behind, htext, -, hname, hvalue⟩ := (read_eq_ok_iff ..).1 hread
    obtain ⟨w₁, w₂, hw₁, hw₂, hfront⟩ := Text.exists_trim front
    obtain ⟨w₃, w₄, hw₃, hw₄, hbehind⟩ := Text.exists_trim behind
    rw [hname] at hfront
    refine ⟨w₁, name.toList, w₂, w₃, Text.trim behind, w₄, hw₁, hw₂, hw₃, hw₄, hnamed, hvalue, ?_⟩
    rw [htext, hfront, ← hbehind, List.append_assoc, List.append_assoc]

end Assignment

/-! ## §3 What a preset does -/

namespace Machine

open Assignment (Presets presets_iff)

/-- The machine with a word in a cell. -/
def withWord (m : Machine) (w : Word) : Cell → Machine
  | .register r => { m with state := m.state.writeRegister r w }
  | .memory a => { m with state := { m.state with memory := m.state.memory.put a w } }

theorem program_withWord (m : Machine) (w : Word) (cell : Cell) :
    (m.withWord w cell).program = m.program := by
  cases cell <;> rfl

theorem budget_withWord (m : Machine) (w : Word) (cell : Cell) :
    (m.withWord w cell).budget = m.budget := by
  cases cell <;> rfl

theorem pc_withWord (m : Machine) (w : Word) (cell : Cell) :
    (m.withWord w cell).state.pc = m.state.pc := by
  cases cell <;> rfl

/-- Putting a word into a cell that has a name changes this cell and no other. -/
theorem read_withWord (m : Machine) (w : Word) {cell : Cell} {cs : List Char} (h : cell.Named cs)
    (other : Cell) :
    (m.withWord w cell).state.read other = if other = cell then some w else m.state.read other := by
  cases h with
  | @register r digits _ hr =>
    have hread := m.state.read_writeRegister r w other
    rwa [if_congr (and_iff_left hr) rfl rfl] at hread
  | memory hcs hstarts => exact m.state.read_put (Cell.Named.memory hcs hstarts).isAligned w other

/-- **A word is put into the register that a text names**, and no other text is accepted. -/
theorem perform_writeRegister_eq_ok_iff (m n : Machine) (text : String) (w : Word) :
    m.perform (writeRegister text w) = (.ok (), n) ↔
      ∃ r, (Cell.register r).Named text.toList ∧ n = m.withWord w (.register r) := by
  simp only [← writable_iff_named, perform_writeRegister]
  cases writable text with
  | error e => simp
  | ok r =>
    simp only [Prod.mk.injEq, true_and, Except.ok.injEq, exists_eq_left']
    exact eq_comm

/-- **A word is put into the memory cell that a text names**, and no other text is accepted. -/
theorem perform_writeMemoryAt_eq_ok_iff (m n : Machine) (text : String) (w : Word) :
    m.perform (writeMemoryAt text w) = (.ok (), n) ↔
      ∃ a, (Cell.memory a).Named (Text.trim text.toList) ∧ n = m.withWord w (.memory a) := by
  simp only [← addressNamed_iff_named, perform_writeMemoryAt]
  cases haddress : addressNamed text with
  | error e => simp
  | ok a =>
    -- An address that has been found is one at which a cell starts, so memory does not refuse it.
    have haligned := ((addressNamed_iff_named text a).1 haddress).isAligned
    simp only [perform_writeMemory, Memory.write_of_isAligned haligned, Prod.mk.injEq, true_and,
      Except.ok.injEq, exists_eq_left']
    exact eq_comm

/-- **Presets are accepted exactly by their grammar.** A text is read as an assignment to a name under
which a register can be written exactly if it is the name of a register other than `R0`, an equals sign and
a value, with blanks around the name and around the value; and as one under which memory can be written
exactly if it is such a text with the address of a memory cell. In both cases the value is the word that
is written, the machine that is left has that word in that cell, and nothing else has changed. -/
theorem preset_exact (m n : Machine) (text : String) (w : Word) :
    ((∃ name, Assignment.read text = .ok ⟨name, w⟩ ∧
        m.perform (writeRegister name w) = (.ok (), n)) ↔
      ∃ r, Presets text (.register r) w ∧ n = m.withWord w (.register r)) ∧
    ((∃ name, Assignment.read text = .ok ⟨name, w⟩ ∧
        m.perform (writeMemoryAt name w) = (.ok (), n)) ↔
      ∃ a, Presets text (.memory a) w ∧ n = m.withWord w (.memory a)) ∧
    ∀ cell, Presets text cell w →
      (m.withWord w cell).program = m.program ∧ (m.withWord w cell).budget = m.budget ∧
      (m.withWord w cell).state.pc = m.state.pc ∧
      ∀ other, (m.withWord w cell).state.read other =
        if other = cell then some w else m.state.read other := by
  refine ⟨?register, ?memory, ?frame⟩
  case register =>
    simp only [perform_writeRegister_eq_ok_iff, presets_iff]
    constructor
    · intro ⟨name, hread, r, hnamed, hn⟩
      exact ⟨r, ⟨name, hread, hnamed⟩, hn⟩
    · intro ⟨r, ⟨name, hread, hnamed⟩, hn⟩
      exact ⟨name, hread, r, hnamed, hn⟩
  case memory =>
    simp only [perform_writeMemoryAt_eq_ok_iff, presets_iff]
    constructor
    · intro ⟨name, hread, a, hnamed, hn⟩
      rw [Assignment.trim_name hread] at hnamed
      exact ⟨a, ⟨name, hread, hnamed⟩, hn⟩
    · intro ⟨a, ⟨name, hread, hnamed⟩, hn⟩
      rw [← Assignment.trim_name hread] at hnamed
      exact ⟨name, hread, a, hnamed, hn⟩
  case frame =>
    intro cell h
    obtain ⟨name, -, hnamed⟩ := (presets_iff ..).1 h
    exact ⟨m.program_withWord w cell, m.budget_withWord w cell, m.pc_withWord w cell,
      m.read_withWord w hnamed⟩

end Machine

end Dlx
