import Dlx.Proofs.Machine.Invariant

/-!
# What the cells hold

An instruction reads registers and memory cells alike: there is a word, or the instruction fails for
want of it. Here both are cells of one kind. A line puts a word into one cell at most, whatever that cell
held before, and empties none; and if it fails for want of a word, then the cell that it names is empty.

- **§1** reading a cell (`State.read`)
- **§2** what an effect makes of a cell (`Effect.update`, `Effect.destination?`), and what a line does
- **§3** no line and no run empties a cell
- **§4** lines and runs that miss a word (`State.Lacks`)
-/

namespace Dlx

/-! ## §1 Reading a cell -/

namespace State

/-- The word in a cell. -/
def read (s : State) : Cell → Option Word
  | .register r => s.registers.read r
  | .memory a => s.memory.read a

/-- The cell holds a word. -/
def Holds (s : State) (cell : Cell) : Prop :=
  ∃ w, s.read cell = some w

@[simp]
theorem read_goto (s : State) (line : Nat) (cell : Cell) : (s.goto line).read cell = s.read cell := by
  cases cell <;> rfl

@[simp]
theorem read_wrapped (s : State) (p : Program) (cell : Cell) : (s.wrapped p).read cell = s.read cell := by
  unfold wrapped
  split
  · rfl
  · exact s.read_goto 0 cell

/-- A word that is put into a register is in no other cell, and not in `R0`. -/
theorem read_writeRegister (s : State) (r : Register) (w : Word) (cell : Cell) :
    (s.writeRegister r w).read cell =
      if cell = .register r ∧ r ≠ .zero then some w else s.read cell := by
  cases cell with
  | register q =>
    have hread := s.registers.read_write r q w
    simpa only [read, writeRegister, Cell.register.injEq] using hread
  | memory a => simp [read, writeRegister]

/-- A word that is put into a memory cell is in no other cell. -/
theorem read_put (s : State) {a : Address} (ha : a.isAligned = true) (w : Word) (cell : Cell) :
    { s with memory := s.memory.put a w }.read cell =
      if cell = .memory a then some w else s.read cell := by
  cases cell with
  | register q => simp [read]
  | memory b =>
    have hread := Memory.read_put (m := s.memory) ha w b
    simpa only [read, Cell.memory.injEq] using hread

/-- `R0` keeps its word when it is emptied. -/
theorem read_eraseRegister (s : State) (r : Register) (cell : Cell) :
    { s with registers := s.registers.erase r }.read cell =
      if cell = .register r ∧ r ≠ .zero then none else s.read cell := by
  cases cell with
  | register q =>
    have hread := s.registers.read_erase r q
    simpa only [read, Cell.register.injEq] using hread
  | memory a => simp [read]

theorem read_eraseMemory (s : State) (a : Address) (cell : Cell) :
    { s with memory := s.memory.erase a }.read cell =
      if cell = .memory a then none else s.read cell := by
  cases cell with
  | register q => simp [read]
  | memory b =>
    have hread := s.memory.read_erase a b
    simpa only [read, Cell.memory.injEq] using hread

end State

/-! ## §2 What a line does -/

/-- What a cell holds after an effect of a line, by what it held before. -/
def Effect.update (line : Nat) (cell : Cell) (old : Option Word) : Effect → Option Word
  | .write rd w => if cell = .register rd ∧ rd ≠ .zero then some w else old
  | .store _ a w => if cell = .memory a then some w else old
  | .jump _ linking =>
    if linking = true ∧ cell = .register .link then some (Word.ofIndex (line + 1)) else old
  | .pass | .halt => old

/-- **An effect leaves a cell as it is, or puts a word into it** that does not depend on what the cell
held. -/
theorem Effect.update_cases (line : Nat) (cell : Cell) (e : Effect) :
    (∀ old, e.update line cell old = old) ∨ ∃ w, ∀ old, e.update line cell old = some w := by
  cases e with
  | write rd w =>
    by_cases hcell : cell = .register rd ∧ rd ≠ .zero
    · exact .inr ⟨w, fun old => if_pos hcell⟩
    · exact .inl fun old => if_neg hcell
  | store target a w =>
    by_cases hcell : cell = .memory a
    · exact .inr ⟨w, fun old => if_pos hcell⟩
    · exact .inl fun old => if_neg hcell
  | jump target linking =>
    by_cases hcell : linking = true ∧ cell = .register .link
    · exact .inr ⟨Word.ofIndex (line + 1), fun old => if_pos hcell⟩
    · exact .inl fun old => if_neg hcell
  | pass | halt => exact .inl fun old => rfl

/-- The register that an effect may change. -/
def Effect.destination? : Effect → Option Register
  | .write rd _ => some rd
  | .jump _ true => some .link
  | _ => none

theorem Effect.update_register_of_ne {e : Effect} {r : Register} (hr : e.destination? ≠ some r)
    (line : Nat) (old : Option Word) : e.update line (.register r) old = old := by
  cases e with
  | write rd w =>
    rw [update]
    exact if_neg fun hcell => hr (congrArg some (Cell.register.inj hcell.1).symm)
  | jump target linking =>
    rw [update]
    refine if_neg ?_
    rintro ⟨rfl, hcell⟩
    exact hr (congrArg some (Cell.register.inj hcell).symm)
  | store target a w =>
    -- A register is no memory cell.
    simp [update]
  | pass | halt => rfl

/-- **An effect has the destination of its instruction.** -/
theorem Instruction.destination?_of_effect {p : Program} {s : State} {i : Instruction} {e : Effect}
    (h : i.effect p s = .ok e) : e.destination? = i.destination? := by
  rw [effect_eq_ok_iff] at h
  cases i with
  | load rd source =>
    obtain ⟨a, w, -, -, rfl⟩ := h
    rfl
  | store target rs =>
    obtain ⟨a, w, -, -, rfl⟩ := h
    rfl
  | register op rd rs1 rs2 =>
    obtain ⟨a, b, -, -, rfl⟩ := h
    rfl
  | immediate op rd rs1 value =>
    obtain ⟨a, -, rfl⟩ := h
    rfl
  | branch condition rs label =>
    -- A branch does not link, whether it is taken or not.
    obtain ⟨target, w, -, -, rfl⟩ := h
    cases condition.holds w <;> rfl
  | jump linking label =>
    obtain ⟨target, -, rfl⟩ := h
    cases linking <;> rfl
  | jumpRegister linking rs =>
    obtain ⟨w, target, -, -, rfl⟩ := h
    cases linking <;> rfl
  | halt =>
    obtain rfl := h
    rfl

/-- **An instruction changes no register but its destination.** -/
theorem Instruction.update_register_of_ne {p : Program} {s : State} {i : Instruction} {e : Effect}
    (h : i.effect p s = .ok e) {r : Register} (hr : i.destination? ≠ some r) (line : Nat)
    (old : Option Word) : e.update line (.register r) old = old := by
  apply Effect.update_register_of_ne
  rwa [destination?_of_effect h]

namespace State

/-- The link is all that a jump writes. -/
theorem read_jump (s : State) (line target : Nat) (linking : Bool) (cell : Cell) :
    (s.jump line target linking).read cell =
      (Effect.jump target linking).update line cell (s.read cell) := by
  have hlink : Register.link ≠ .zero := by decide
  cases linking with
  | false => simp [jump, Effect.update]
  | true => simp [jump, read_writeRegister, Effect.update, hlink]

/-- An effect that nothing refuses makes of each cell what it says. -/
theorem read_applied (s : State) {e : Effect}
    (haligned : ∀ target a w, e = .store target a w → a.isAligned = true) (line : Nat) (cell : Cell) :
    (e.applied line s).read cell = e.update line cell (s.read cell) := by
  cases e with
  | write rd w => exact s.read_writeRegister rd w cell
  | store target a w => exact s.read_put (haligned target a w rfl) w cell
  | jump target linking => exact s.read_jump line target linking cell
  | pass | halt => rfl

/-- **What the cells hold after a line that has no fault.** -/
theorem read_of_dispatch_ok {p : Program} {line : Nat} {s t : State} {guard g : Option JumpGuard}
    {flow : Flow} (h : s.dispatch p line guard = ⟨.ok flow, t, g⟩) :
    ∃ e, p.effectAt s line = .ok e ∧ ∀ cell, t.read cell = e.update line cell (s.read cell) := by
  obtain ⟨e, heffect, rfl⟩ := applied_of_dispatch h
  refine ⟨e, heffect, fun cell => ?_⟩
  rw [read_applied, read_goto]
  rintro target a w rfl
  exact Program.isAligned_of_effectAt heffect

/-! ## §3 Cells stay filled -/

theorem Holds.goto {s : State} {cell : Cell} (h : s.Holds cell) (line : Nat) :
    (s.goto line).Holds cell := by
  rwa [Holds, read_goto]

/-- **No line empties a cell.** -/
theorem Holds.dispatch {s : State} {cell : Cell} (h : s.Holds cell) (p : Program) (line : Nat)
    (guard : Option JumpGuard) : (s.dispatch p line guard).state.Holds cell := by
  rcases he : s.dispatch p line guard with ⟨fault | flow, t, g⟩
  · have ht : t = s.goto line := eq_goto_of_dispatch_error he
    rw [ht]
    exact h.goto line
  · obtain ⟨e, -, hread⟩ := read_of_dispatch_ok he
    show ∃ w, t.read cell = some w
    rw [hread]
    obtain hkept | ⟨w, hwritten⟩ := e.update_cases line cell
    · rw [hkept]
      exact h
    · exact ⟨w, hwritten _⟩

/-- **No run empties a cell**, however it ends. -/
theorem Runs.holds {p : Program} {limit left steps : Nat} {guard : Option JumpGuard} {s t : State}
    {stop : Except MachineError Stop} (h : Runs p limit left steps guard s stop t) {cell : Cell}
    (hholds : s.Holds cell) : t.Holds cell := by
  -- On the run; a run may go back to the first line when it ends, which is no matter of the cells.
  induction h with
  | exhausted => exact hholds
  | missing => exact hholds.goto 0
  | paused => exact hholds
  | @faulted left steps guard g s t fault hdispatches he =>
    have ht := hholds.dispatch p s.pc guard
    rwa [he] at ht
  | @halted left steps guard g s t hdispatches he =>
    have ht := hholds.dispatch p s.pc guard
    rw [he] at ht
    exact ht.goto 0
  | @ranOut left steps guard g s t hdispatches he hpc =>
    have ht := hholds.dispatch p s.pc guard
    rw [he] at ht
    exact ht.goto 0
  | @advanced left steps guard g s t u stop hdispatches he hpc _ ih =>
    have ht := hholds.dispatch p s.pc guard
    rw [he] at ht
    exact ih ht

/-- No step empties a cell. -/
theorem Steps.holds {p : Program} {s t : State} {result : Except MachineError Tick}
    (h : Steps p s result t) {cell : Cell} (hholds : s.Holds cell) : t.Holds cell := by
  have hleft := hholds.dispatch p s.pc none
  cases h with
  | missing => exact hholds
  | faulted hl he | stepped hl he =>
    rw [he] at hleft
    exact hleft
  | halted hl he | ranOut hl he =>
    rw [he] at hleft
    exact hleft.goto 0

theorem Holds.wrapped {s : State} {cell : Cell} (h : s.Holds cell) (p : Program) :
    (s.wrapped p).Holds cell := by
  rwa [Holds, read_wrapped]

/-! ## §4 Missing words -/

/-- The cell could hold a word, and holds none. -/
structure Lacks (s : State) (cell : Cell) : Prop where
  read : s.read cell = none
  aligned : ∀ a, cell = .memory a → a.isAligned = true

theorem Lacks.not_holds {s : State} {cell : Cell} (h : s.Lacks cell) : ¬ s.Holds cell := by
  intro ⟨w, hw⟩
  rw [h.read] at hw
  exact absurd hw (by simp)

theorem Lacks.goto {s : State} {cell : Cell} (h : s.Lacks cell) (line : Nat) :
    (s.goto line).Lacks cell :=
  ⟨by rw [read_goto, h.read], h.aligned⟩

/-- `R0` always holds a word. -/
theorem Lacks.ne_zero {s : State} {cell : Cell} (h : s.Lacks cell) : cell ≠ .register .zero := by
  rintro rfl
  exact h.not_holds ⟨0, rfl⟩

theorem lacks_of_trueOf {p : Program} {s : State} {cell : Cell}
    (h : (Fault.noValue cell).TrueOf p s) : s.Lacks cell := by
  cases cell with
  | register r => exact ⟨h, fun a ha => absurd ha (by simp)⟩
  | memory a =>
    obtain ⟨hread, haligned⟩ := h
    refine ⟨hread, fun b hb => ?_⟩
    obtain rfl := Cell.memory.inj hb
    exact haligned

end State

/-- A guard refuses jumps for reasons of its own, and never for want of a word. -/
theorem countJump_ne_noValue (j : Jump) (guard : Option JumpGuard) (cell : Cell) :
    (countJump j guard).1 ≠ .error (.noValue cell) := by
  cases guard with
  | none => simp [countJump]
  | some g =>
    by_cases hrange : g.tally.InRange j
    · rw [countJump_of_inRange hrange]
      split <;> simp
    · rw [countJump_of_not_inRange hrange]
      simp

namespace State

/-- **A line that fails for want of a word tells the truth.** -/
theorem lacks_of_dispatch {p : Program} {line : Nat} {s : State} {guard : Option JumpGuard} {cell : Cell}
    (h : (s.dispatch p line guard).result = .error (.noValue cell)) : s.Lacks cell := by
  rw [dispatch_eq] at h
  cases heffect : p.effectAt s line with
  | error fault =>
    rw [heffect] at h
    obtain rfl := Except.error.inj h
    exact lacks_of_trueOf (Program.trueOf_of_effectAt heffect)
  | ok e =>
    rw [heffect] at h
    cases e with
    | jump target linking =>
      -- A jump that is not taken has been refused by the guard.
      dsimp only at h
      cases hcount : countJump ⟨line, target⟩ guard with
      | mk verdict g =>
        rw [hcount] at h
        cases verdict with
        | ok _ => exact absurd h (by simp)
        | error fault =>
          obtain rfl := Except.error.inj h
          exact absurd (congrArg Prod.fst hcount) (countJump_ne_noValue _ guard cell)
    | write | store | pass | halt => exact absurd h (by simp)

/-- **A run that fails for want of a word tells the truth**: the cell is empty in the state that it leaves,
and the line that it names is next. -/
theorem Runs.lacks {p : Program} {limit left steps : Nat} {guard : Option JumpGuard} {s t : State}
    {stop : Except MachineError Stop} (h : Runs p limit left steps guard s stop t) {line : Nat}
    {cell : Cell} (hstop : stop = .error (.fault line (.noValue cell))) :
    t.pc = line ∧ t.Lacks cell := by
  -- On the run; only its last line fails.
  induction h with
  | exhausted | missing | paused | halted | ranOut => exact absurd hstop (by simp)
  | @faulted left steps guard g s t fault hdispatches he =>
    obtain ⟨rfl, rfl⟩ := MachineError.fault.inj (Except.error.inj hstop)
    have hlacks : s.Lacks cell := lacks_of_dispatch (congrArg Execution.result he)
    have ht : t = s.goto s.pc := eq_goto_of_dispatch_error he
    rw [ht]
    exact ⟨rfl, hlacks.goto s.pc⟩
  | advanced _ _ _ _ ih => exact ih hstop

/-- **A step that fails for want of a word tells the truth.** -/
theorem Steps.lacks {p : Program} {s t : State} {line : Nat} {cell : Cell}
    (h : Steps p s (.error (.fault line (.noValue cell))) t) : t.pc = line ∧ t.Lacks cell := by
  cases h with
  | faulted hl he =>
    have hlacks : s.Lacks cell := lacks_of_dispatch (congrArg Execution.result he)
    have ht : t = s.goto s.pc := eq_goto_of_dispatch_error he
    rw [ht]
    exact ⟨rfl, hlacks.goto s.pc⟩

end State

end Dlx
