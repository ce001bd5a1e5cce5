import Dlx.Proofs.Machine.Log

/-!
# Breakpoints

A breakpoint has no part in what a line does: a program and the same program without breakpoints dispatch
their lines alike.

- **§1** the lines with a breakpoint
- **§2** programs without breakpoints (`Program.Unmarks`)
- **§3** machines without breakpoints (`Machine.Unmarks`)
-/

namespace Dlx

/-! ## §1 Lines with a breakpoint -/

theorem Program.mem_breakpoints_iff (p : Program) (line : Nat) :
    line ∈ p.breakpoints ↔ ∃ l, p.line? line = some l ∧ l.breakpoint = true := by
  unfold breakpoints
  rw [List.mem_filterMap]
  constructor
  · rintro ⟨⟨l, i⟩, hmem, hi⟩
    rw [List.mem_zipIdx_iff_getElem?, Array.getElem?_toList] at hmem
    split at hi
    · rename_i hbreakpoint
      obtain rfl : i = line := Option.some.inj hi
      exact ⟨l, hmem, hbreakpoint⟩
    · exact absurd hi (by simp)
  · rintro ⟨l, hl, hbreakpoint⟩
    refine ⟨(l, line), ?_, if_pos hbreakpoint⟩
    rwa [List.mem_zipIdx_iff_getElem?, Array.getElem?_toList]

/-- At a given line there is one line. -/
theorem Program.mem_breakpoints_iff_of_line? {p : Program} {line : Nat} {l : Line}
    (h : p.line? line = some l) : line ∈ p.breakpoints ↔ l.breakpoint = true := by
  rw [mem_breakpoints_iff]
  constructor
  · rintro ⟨k, hk, hbreakpoint⟩
    obtain rfl := Option.some.inj (h.symm.trans hk)
    exact hbreakpoint
  · exact fun hbreakpoint => ⟨l, h, hbreakpoint⟩

/-! ## §2 Programs without breakpoints -/

namespace Program

/-- The first program consists of the lines of the second one, without their breakpoints. -/
def Unmarks (q p : Program) : Prop :=
  ∀ line, q.line? line = (p.line? line).map fun l => { l with breakpoint := false }

variable {p q : Program}

theorem Unmarks.breakpoint_eq_false (h : q.Unmarks p) {line : Nat} {l : Line}
    (hl : q.line? line = some l) : l.breakpoint = false := by
  rw [h line] at hl
  obtain ⟨k, -, rfl⟩ := Option.map_eq_some_iff.1 hl
  rfl

/-- What a run of the first program dispatches is a line of the second one. -/
theorem Unmarks.line?_of_dispatches (h : q.Unmarks p) {s : State} {steps : Nat}
    (hdispatches : s.Dispatches q steps) : ∃ l, p.line? s.pc = some l := by
  obtain ⟨l, hl, -⟩ := hdispatches
  rw [h s.pc] at hl
  obtain ⟨k, hk, -⟩ := Option.map_eq_some_iff.1 hl
  exact ⟨k, hk⟩

theorem Unmarks.instruction? (h : q.Unmarks p) (line : Nat) :
    q.instruction? line = p.instruction? line := by
  rw [Program.instruction?, Program.instruction?, h line]
  cases p.line? line <;> rfl

theorem Unmarks.lt_size_iff (h : q.Unmarks p) (line : Nat) : line < q.size ↔ line < p.size := by
  rw [Program.lt_size_iff, Program.lt_size_iff, h line]
  cases p.line? line <;> simp

theorem Unmarks.size_eq (h : q.Unmarks p) : q.size = p.size := by
  have hqp := h.lt_size_iff q.size
  have hpq := h.lt_size_iff p.size
  omega

theorem Unmarks.wrapped (h : q.Unmarks p) (s : State) : s.wrapped q = s.wrapped p := by
  rw [State.wrapped, State.wrapped, h.size_eq]

/-- In both programs a label resolves to the same line, for it is carried by the same line. -/
theorem Unmarks.resolve? (h : q.Unmarks p) (hq : q.Indexed) (hp : p.Indexed) (label : String) :
    q.resolve? label = p.resolve? label := by
  apply Option.ext
  intro line
  rw [hq label line, hp label line, h line]
  cases p.line? line <;> simp

end Program

/-- The effect of an instruction depends on its program only through the labels and the number of
lines. -/
theorem Instruction.effect_congr {p q : Program} (hsize : q.size = p.size)
    (hresolve : ∀ label, q.resolve? label = p.resolve? label) (s : State) (i : Instruction) :
    i.effect q s = i.effect p s := by
  cases i with
  | branch condition rs label => simp only [effect, Program.find, hresolve]
  | jump linking label => simp only [effect, Program.find, hresolve]
  | jumpRegister linking rs => simp only [effect, Program.lineOfWord, hsize]
  | load | store | register | immediate | halt => rfl

/-- **Without its breakpoint a line does the same.** -/
theorem Program.Unmarks.dispatch {p q : Program} (h : q.Unmarks p) (hq : q.Indexed) (hp : p.Indexed)
    (s : State) (line : Nat) (guard : Option JumpGuard) :
    s.dispatch q line guard = s.dispatch p line guard := by
  have heffect : q.effectAt s line = p.effectAt s line := by
    simp only [effectAt, h.instruction?, Instruction.effect_congr h.size_eq (h.resolve? hq hp)]
  rw [State.dispatch_eq, State.dispatch_eq, heffect]

/-! ## §3 Machines without breakpoints -/

/-- The machines are the same, except that the program of the first one has no breakpoints. -/
structure Machine.Unmarks (n m : Machine) : Prop where
  state : n.state = m.state
  budget : n.budget = m.budget
  program : Option.Rel Program.Unmarks n.program m.program

end Dlx
