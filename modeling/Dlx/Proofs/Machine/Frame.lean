import Dlx.Proofs.Machine.Cells

/-!
# What an instruction leaves alone

Three things are said of an instruction without carrying it out: which register is its destination,
whether it is a store, and whether it may go on elsewhere than on the next line. They bound what it
changes, whatever the state, the program and the guard: one register, one cell, and the next line, each
of them only if the instruction says so.

- **§1** what an effect leaves alone
- **§2** what an instruction changes (`Instruction.Confines`)
-/

namespace Dlx

/-! ## §1 Effects -/

namespace Effect

variable {e : Effect}

/-- The destination of an effect holds a word afterwards. -/
theorem holds_destination {r : Register} (h : e.destination? = some r) (line : Nat) (s : State) :
    ∃ w, (e.applied line s).registers.read r = some w := by
  have hzero : Register.link ≠ .zero := by decide
  cases e with
  | write rd w =>
    obtain rfl := Option.some.inj h
    show ∃ v, (s.registers.write rd w).read rd = some v
    rw [RegisterFile.read_write]
    by_cases hrd : rd = .zero
    · -- What is written to `R0` is dropped, and a zero is there all the same.
      exact ⟨0, by rw [hrd]; rfl⟩
    · exact ⟨w, if_pos ⟨rfl, hrd⟩⟩
  | jump target linking =>
    cases linking with
    | false => exact absurd h (by simp [destination?])
    | true =>
      obtain rfl := Option.some.inj h
      show ∃ v, (s.registers.write .link _).read .link = some v
      rw [RegisterFile.read_write]
      exact ⟨_, if_pos ⟨rfl, hzero⟩⟩
  | store | pass | halt => exact absurd h (by simp [destination?])

theorem registers_applied (h : e.destination? = none) (line : Nat) (s : State) :
    (e.applied line s).registers = s.registers := by
  cases e with
  | write rd w => exact absurd h (by simp [destination?])
  | jump target linking =>
    cases linking with
    | false => rfl
    | true => exact absurd h (by simp [destination?])
  | store | pass | halt => rfl

theorem memory_applied (h : ∀ target a w, e ≠ .store target a w) (line : Nat) (s : State) :
    (e.applied line s).memory = s.memory := by
  cases e with
  | store target a w => exact absurd rfl (h target a w)
  | jump target linking => cases linking <;> rfl
  | write | pass | halt => rfl

theorem pc_applied (h : ∀ target linking, e ≠ .jump target linking) (line : Nat) (s : State) :
    (e.applied line s).pc = s.pc := by
  cases e with
  | jump target linking => exact absurd rfl (h target linking)
  | write | store | pass | halt => rfl

end Effect

/-! ## §2 Instructions -/

namespace Instruction

/-- An instruction changes a state within the bounds that it sets itself. Its destination holds a word
afterwards and every other register reads as before; without a destination the register file is the same.
Memory is the same unless the instruction is a store, and then the one cell at its address holds the word
of its register. The next line is the same unless the instruction may go on elsewhere and does; then it is
the target, and in a built program that is a line or the index just past the last one. -/
structure Confines (p : Program) (s t : State) (i : Instruction) : Prop where
  register : ∀ r, i.destination? ≠ some r → t.registers.read r = s.registers.read r
  destination : ∀ r, i.destination? = some r → ∃ w, t.registers.read r = some w
  registers : i.destination? = none → t.registers = s.registers
  memory : (∀ target rs, i ≠ .store target rs) → t.memory = s.memory
  cell : ∀ target rs, i = .store target rs → ∃ a, s.address target = .ok a ∧
    ∀ b, t.memory.read b = if b = a then s.registers.read rs else s.memory.read b
  pc : i.isControl = false → t.pc = s.pc
  pass : (∀ target linking, i.effect p s ≠ .ok (.jump target linking)) → t.pc = s.pc
  jump : ∀ target linking, i.effect p s = .ok (.jump target linking) →
    t.pc = target ∧ (p.Built → target ≤ p.size)

/-- **What is said of an instruction bounds what it changes**, for every instruction, line, state, program
and guard. -/
theorem confines_of_execute {p : Program} {s t : State} {i : Instruction} {line : Nat}
    {guard g : Option JumpGuard} {flow : Flow} (h : i.execute p line s guard = ⟨.ok flow, t, g⟩) :
    i.Confines p s t := by
  obtain ⟨e, heffect, rfl⟩ := applied_of_execute h
  have hdestination := destination?_of_effect heffect
  have hread := s.read_applied (e := e)
    (fun target a w he => isAligned_of_effect (he ▸ heffect)) line
  have hpass (hjump : ∀ target linking, i.effect p s ≠ .ok (.jump target linking)) :
      (e.applied line s).pc = s.pc :=
    Effect.pc_applied (fun target linking he => hjump target linking (he ▸ heffect)) line s
  refine ⟨fun r hr => ?_, fun r hr => ?_, fun hnone => ?_, fun hstore => ?_, ?_, fun hcontrol => ?_,
    hpass, ?_⟩
  · exact (hread (.register r)).trans (update_register_of_ne heffect hr line _)
  · exact Effect.holds_destination (hdestination.trans hr) line s
  · exact Effect.registers_applied (hdestination.trans hnone) line s
  · apply Effect.memory_applied
    rintro target a w rfl
    obtain ⟨rs, rfl, -⟩ := store_of_effect heffect
    exact hstore target rs rfl
  · rintro target rs rfl
    obtain ⟨a, w, ha, hw, rfl⟩ := (effect_eq_ok_iff ..).1 heffect
    refine ⟨a, ha, fun b => ?_⟩
    have hcell := hread (.memory b)
    simp only [Effect.update, Cell.memory.injEq] at hcell
    rw [hw]
    exact hcell
  · apply hpass
    intro target linking hjump
    exact absurd (isControl_of_effect hjump) (by simp [hcontrol])
  · intro target linking hjump
    obtain rfl := Except.ok.inj (heffect.symm.trans hjump)
    exact ⟨rfl, fun hbuilt => target_le_of_effect hbuilt.indexed hjump⟩

end Instruction

/-- A state in which `R31` leads just past the last of three lines, and in which a cell holds a word. -/
def State.leaving : State :=
  ⟨RegisterFile.empty.write .link 3, Memory.empty.put 8 1, 2⟩

/-- A call through `R31` writes the link and goes on just past the last line, an addition changes its
destination, and a store its cell. All else is as before. -/
theorem Instruction.confines_of_execute_leaving :
    (∃ t : State, (jumpRegister true .link).execute Machine.storing 1 State.leaving none =
        ⟨.ok .next, t, none⟩ ∧ (∃ w, t.registers.read .link = some w) ∧
        t.memory = State.leaving.memory ∧ t.pc = 3 ∧ 3 ≤ Machine.storing.size) ∧
    (∃ t : State, (immediate .add ⟨1⟩ .link 5).execute Machine.storing 1 State.leaving none =
        ⟨.ok .next, t, none⟩ ∧ (∃ w, t.registers.read ⟨1⟩ = some w) ∧
        t.registers.read .link = some 3 ∧ t.memory = State.leaving.memory ∧ t.pc = 2) ∧
    ∃ t : State, (store ⟨8, .zero⟩ .link).execute Machine.storing 1 State.leaving none =
        ⟨.ok .next, t, none⟩ ∧ t.memory.read 8 = some 3 ∧ t.memory.read 12 = none ∧
        t.registers = State.leaving.registers ∧ t.pc = 2 := by
  have hcall : (jumpRegister true .link).execute Machine.storing 1 State.leaving none =
      ⟨.ok .next, State.leaving.jump 1 3 true, none⟩ := rfl
  have hadd : (immediate .add ⟨1⟩ .link 5).execute Machine.storing 1 State.leaving none =
      ⟨.ok .next, State.leaving.writeRegister ⟨1⟩ 8, none⟩ := rfl
  have hstore : (store ⟨8, .zero⟩ .link).execute Machine.storing 1 State.leaving none =
      ⟨.ok .next, { State.leaving with memory := State.leaving.memory.put 8 3 }, none⟩ := rfl
  have hcalled := confines_of_execute hcall
  have hadded := confines_of_execute hadd
  have hstored := confines_of_execute hstore
  obtain ⟨hpc, htarget⟩ := hcalled.jump 3 true rfl
  obtain ⟨a, ha, hcell⟩ := hstored.cell _ _ rfl
  -- The address of the store is its offset.
  obtain rfl : 8 = a := Except.ok.inj ha
  refine ⟨⟨_, hcall, hcalled.destination .link rfl, hcalled.memory (by simp), hpc,
    htarget (.ofLines _)⟩, ⟨_, hadd, hadded.destination ⟨1⟩ rfl, hadded.register .link (by decide),
    hadded.memory (by simp), hadded.pc rfl⟩, ?_⟩
  exact ⟨_, hstore, hcell 8, hcell 12, hstored.registers rfl, hstored.pc rfl⟩

end Dlx
