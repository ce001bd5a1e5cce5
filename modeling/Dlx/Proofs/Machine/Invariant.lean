import Dlx.Proofs.Assembly.Assembled
import Dlx.Proofs.Machine.Operations
import Dlx.Proofs.Machine.Run

/-!
# What holds of every machine

Whatever a user has asked of a machine, and whether it was granted or not: the next line is a line of the
program, the budget can be spent, the program is one that can be run, and words are held only where
they can be.

- **§1** register files
- **§2** words are held only where they can be (`State.Tidy`)
- **§3** the next line is a line of the program (`State.Placed`)
- **§4** runs and steps
- **§5** machines (`Machine.Sound`), and what each command does to them
- **§6** every machine that commands can give (`Machine.Reachable`)
-/

namespace Dlx

/-! ## §1 Register files -/

theorem Register.index_ne_zero {r : Register} (h : ¬ r.isZero = true) : (r.index : Nat) ≠ 0 := by
  intro hindex
  apply h
  obtain ⟨index⟩ := r
  obtain rfl : index = 0 := Fin.ext hindex
  rfl

namespace RegisterFile

/-- The slot of `R0` is not written. -/
theorem slot_zero_write (f : RegisterFile) (r : Register) (w : Word) :
    (f.write r w).slots[0] = f.slots[0] := by
  unfold write
  split
  · rfl
  · exact Vector.getElem_set_ne r.index.isLt _ (Register.index_ne_zero ‹_›)

theorem slot_zero_erase (f : RegisterFile) (r : Register) :
    (f.erase r).slots[0] = f.slots[0] := by
  unfold erase
  split
  · rfl
  · exact Vector.getElem_set_ne r.index.isLt _ (Register.index_ne_zero ‹_›)

theorem slot_zero_empty : empty.slots[0] = none := rfl

/-- **Register files that read the same are equal**, as long as nothing is kept in the slot of `R0`. -/
theorem eq_iff_read_eq {f g : RegisterFile} (hf : f.slots[0] = none) (hg : g.slots[0] = none) :
    f = g ↔ ∀ r, f.read r = g.read r := by
  constructor
  · intro h r
    rw [h]
  · intro h
    obtain ⟨slots⟩ := f
    obtain ⟨others⟩ := g
    have hslots : slots = others := by
      apply Vector.ext
      intro i hi
      by_cases hzero : i = 0
      · -- Reading `R0` does not look at its slot.
        subst hzero
        exact hf.trans hg.symm
      · have hread := h ⟨⟨i, hi⟩⟩
        have hne : Register.isZero ⟨⟨i, hi⟩⟩ = false := by
          simp [Register.isZero, Register.zero, Fin.ext_iff, hzero]
        simpa [read, hne] using hread
    rw [hslots]

end RegisterFile

/-! ## §2 Where words are held -/

/-- Words are held only where they can be: in memory where a cell starts, and not in the slot of `R0`. -/
structure State.Tidy (s : State) : Prop where
  aligned : ∀ a w, s.memory.read a = some w → a.isAligned = true
  zero : s.registers.slots[0] = none

namespace State

theorem tidy_initial : initial.Tidy where
  aligned a w h := by simp [initial, Memory.empty, Memory.read] at h
  zero := rfl

theorem Tidy.goto {s : State} (h : s.Tidy) (line : Nat) : (s.goto line).Tidy :=
  ⟨h.aligned, h.zero⟩

theorem Tidy.wrapped {s : State} (h : s.Tidy) (p : Program) : (s.wrapped p).Tidy := by
  unfold State.wrapped
  split
  · exact h
  · exact h.goto 0

/-- Other registers may be anything, if nothing is kept in the slot of `R0`. -/
theorem Tidy.withRegisters {s : State} (h : s.Tidy) {f : RegisterFile} (hf : f.slots[0] = none) :
    { s with registers := f }.Tidy :=
  ⟨h.aligned, hf⟩

theorem Tidy.withMemory {s : State} (h : s.Tidy) {memory : Memory}
    (hmemory : ∀ a w, memory.read a = some w → a.isAligned = true) :
    { s with memory := memory }.Tidy :=
  ⟨hmemory, h.zero⟩

theorem Tidy.writeRegister {s : State} (h : s.Tidy) (r : Register) (w : Word) :
    (s.writeRegister r w).Tidy := by
  apply h.withRegisters
  rw [RegisterFile.slot_zero_write]
  exact h.zero

/-- A word put where a cell starts is held where it can be. -/
theorem Tidy.put {s : State} (h : s.Tidy) {a : Address} (ha : a.isAligned = true) (w : Word) :
    { s with memory := s.memory.put a w }.Tidy := by
  apply h.withMemory
  intro b v hread
  rw [Memory.read_put ha] at hread
  -- The word that is read is the new one or was there before.
  by_cases hb : b = a
  · rw [hb]
    exact ha
  · rw [if_neg hb] at hread
    exact h.aligned b v hread

theorem Tidy.erase {s : State} (h : s.Tidy) (a : Address) :
    { s with memory := s.memory.erase a }.Tidy := by
  apply h.withMemory
  intro b w hread
  rw [Memory.read_erase] at hread
  by_cases hb : b = a
  · rw [if_pos hb] at hread
    exact absurd hread (by simp)
  · rw [if_neg hb] at hread
    exact h.aligned b w hread

/-- A jump writes the link at most. -/
theorem Tidy.jump {s : State} (h : s.Tidy) (line target : Nat) (linking : Bool) :
    (s.jump line target linking).Tidy := by
  cases linking with
  | false => exact h.goto target
  | true => exact (h.writeRegister .link _).goto target

/-- **Whatever a line does, words are held only where they can be.** -/
theorem Tidy.dispatch {s : State} (h : s.Tidy) (p : Program) (line : Nat)
    (guard : Option JumpGuard) : (s.dispatch p line guard).state.Tidy := by
  rw [dispatch_eq]
  cases heffect : p.effectAt s line with
  | error fault => exact h.goto line
  | ok e =>
    cases e with
    | write rd w => exact (h.goto (line + 1)).writeRegister rd w
    | store target a w =>
      -- The address of a store has been found to be one where a cell starts.
      have ha : a.isAligned = true := Program.isAligned_of_effectAt heffect
      exact (h.goto (line + 1)).put ha w
    | jump target linking =>
      -- A jump is allowed or refused.
      dsimp only
      cases countJump ⟨line, target⟩ guard with
      | mk verdict g =>
        cases verdict with
        | ok _ => exact h.jump line target linking
        | error fault => exact h.goto line
    | pass => exact h.goto (line + 1)
    | halt => exact h.goto (line + 1)

/-- After a fault the line that has it is next. -/
theorem eq_goto_of_dispatch_error {p : Program} {line : Nat} {s t : State}
    {guard g : Option JumpGuard} {fault : Fault}
    (h : s.dispatch p line guard = ⟨.error fault, t, g⟩) : t = s.goto line := by
  rw [dispatch_eq] at h
  cases heffect : p.effectAt s line with
  | error other =>
    rw [heffect] at h
    exact (Execution.mk.inj h).2.1.symm
  | ok e =>
    rw [heffect] at h
    cases e with
    | jump target linking =>
      -- Counting the jump may have refused it; nothing has changed then.
      dsimp only at h
      cases hcount : countJump ⟨line, target⟩ guard with
      | mk verdict g' =>
        rw [hcount] at h
        cases verdict with
        | ok _ => exact absurd (Execution.mk.inj h).1 (by simp)
        | error other => exact (Execution.mk.inj h).2.1.symm
    | write | store | pass | halt => exact absurd (Execution.mk.inj h).1 (by simp)

/-! ## §3 Where the program goes on -/

/-- The next line is one of so many lines, or the first if there are none. -/
def Placed (size : Nat) (s : State) : Prop :=
  if size = 0 then s.pc = 0 else s.pc < size

theorem placed_of_lt {size : Nat} {s : State} (h : s.pc < size) : s.Placed size := by
  have hne : size ≠ 0 := by omega
  rw [Placed, if_neg hne]
  exact h

theorem placed_of_first (size : Nat) {s : State} (h : s.pc = 0) : s.Placed size := by
  unfold Placed
  split <;> omega

theorem placed_wrapped (p : Program) (s : State) : (s.wrapped p).Placed p.size := by
  by_cases hpc : s.pc < p.size
  · rw [wrapped_of_lt hpc]
    exact placed_of_lt hpc
  · unfold wrapped
    rw [if_neg hpc]
    exact placed_of_first _ rfl

/-! ## §4 Runs and steps -/

/-- **A run leaves the state as it should be**, however it ends. -/
theorem Runs.sound {p : Program} {limit left steps : Nat} {guard : Option JumpGuard} {s t : State}
    {stop : Except MachineError Stop} (h : Runs p limit left steps guard s stop t) (htidy : s.Tidy)
    (hplaced : s.Placed p.size) : t.Tidy ∧ t.Placed p.size := by
  -- On the run: it ends where it stands, at the line of a fault, or back at the first line.
  induction h with
  | exhausted => exact ⟨htidy, hplaced⟩
  | missing => exact ⟨htidy.goto 0, placed_of_first _ rfl⟩
  | paused => exact ⟨htidy, hplaced⟩
  | @faulted left steps guard g s t fault hdispatches he =>
    -- The line at fault stays next, and it was a line of the program.
    obtain ⟨l, hl, -⟩ := hdispatches
    have ht : t = s.goto s.pc := eq_goto_of_dispatch_error he
    rw [ht]
    exact ⟨htidy.goto s.pc, placed_of_lt (Program.lt_size_of_line? hl)⟩
  | @halted left steps guard g s t hdispatches he =>
    have ht := htidy.dispatch p s.pc guard
    rw [he] at ht
    exact ⟨ht.goto 0, placed_of_first _ rfl⟩
  | @ranOut left steps guard g s t hdispatches he hpc =>
    have ht := htidy.dispatch p s.pc guard
    rw [he] at ht
    exact ⟨ht.goto 0, placed_of_first _ rfl⟩
  | @advanced left steps guard g s t u stop hdispatches he hpc _ ih =>
    have ht := htidy.dispatch p s.pc guard
    rw [he] at ht
    exact ih ht (placed_of_lt hpc)

theorem sound_run {s : State} (h : s.Tidy) (p : Program) (b : Budget) :
    (s.run p b).2.Tidy ∧ (s.run p b).2.Placed p.size :=
  (runs_runFrom p _ _ 0 _ _).sound (h.wrapped p) (placed_wrapped p s)

/-- A step leaves the state as it should be. -/
theorem Steps.sound {p : Program} {s t : State} {result : Except MachineError Tick}
    (h : Steps p s result t) (htidy : s.Tidy) (hplaced : s.Placed p.size) :
    t.Tidy ∧ t.Placed p.size := by
  have hleft := htidy.dispatch p s.pc none
  cases h with
  | missing => exact ⟨htidy, hplaced⟩
  | faulted hl he =>
    have ht : t = s.goto s.pc := eq_goto_of_dispatch_error he
    rw [ht]
    exact ⟨htidy.goto s.pc, placed_of_lt (Program.lt_size_of_line? hl)⟩
  | halted hl he | ranOut hl he =>
    rw [he] at hleft
    exact ⟨hleft.goto 0, placed_of_first _ rfl⟩
  | stepped hl he hpc =>
    rw [he] at hleft
    exact ⟨hleft, placed_of_lt hpc⟩

theorem sound_step {s : State} (h : s.Tidy) (p : Program) :
    (s.step p).2.Tidy ∧ (s.step p).2.Placed p.size :=
  (steps_step p s).sound (h.wrapped p) (placed_wrapped p s)

end State

/-! ## §5 Machines -/

/-- The commands that can be given: a program that is handed over has been built. -/
def Command.Admissible : Command → Prop
  | .load p => p.Built
  | _ => True

namespace Machine

/-- The number of lines that are loaded. -/
def size (m : Machine) : Nat :=
  (m.program.map Program.size).getD 0

theorem size_of_program {m : Machine} {p : Program} (h : m.program = some p) : m.size = p.size := by
  rw [size, h]
  rfl

/-- A machine as it should be. -/
structure Sound (m : Machine) : Prop where
  placed : m.state.Placed m.size
  tidy : m.state.Tidy
  budget : m.budget.check = .ok ()
  built : ∀ p, m.program = some p → p.Built
  checked : ∀ p, m.program = some p → p.Checked

theorem sound_initial : initial.Sound where
  placed := rfl
  tidy := State.tidy_initial
  budget := rfl
  built p h := by simp [initial] at h
  checked p h := by simp [initial] at h

theorem sound_withBudget {b : Budget} {m : Machine} (h : withBudget b = .ok m) : m.Sound := by
  unfold withBudget at h
  split at h
  · rename_i hcheck
    obtain rfl := Except.ok.inj h
    exact { sound_initial with budget := hcheck }
  · exact absurd h (by simp)

/-- Another state is as good, if it is as a state should be. -/
theorem Sound.withState {m : Machine} (h : m.Sound) {s : State} (hplaced : s.Placed m.size)
    (htidy : s.Tidy) : { m with state := s }.Sound :=
  ⟨hplaced, htidy, h.budget, h.built, h.checked⟩

/-- A state with the same next line is placed as well. -/
theorem Sound.withTidy {m : Machine} (h : m.Sound) {s : State} (hpc : s.pc = m.state.pc)
    (htidy : s.Tidy) : { m with state := s }.Sound := by
  apply h.withState _ htidy
  rw [State.Placed, hpc]
  exact h.placed

theorem Sound.unloaded {m : Machine} (h : m.Sound) : m.unloaded.Sound where
  placed := rfl
  tidy := h.tidy.goto 0
  budget := h.budget
  built p hp := absurd hp (by simp [Machine.unloaded])
  checked p hp := absurd hp (by simp [Machine.unloaded])

theorem Sound.installed {m : Machine} (h : m.Sound) {p : Program} (hbuilt : p.Built)
    (hchecked : p.Checked) : (m.installed p).Sound where
  placed := State.placed_of_first _ rfl
  tidy := h.tidy.goto 0
  budget := h.budget
  built _ hq := Option.some.inj hq ▸ hbuilt
  checked _ hq := Option.some.inj hq ▸ hchecked

/-- Setting a breakpoint keeps the number of lines, and so the next line may stay. -/
theorem Sound.withBreakpoint {m : Machine} (h : m.Sound) {p q : Program}
    (hp : m.program = some p) {line : Nat} {on : Bool} (hset : p.setBreakpoint? line on = some q) :
    { m with program := some q }.Sound where
  placed := by
    have hplaced := h.placed
    show m.state.Placed q.size
    rwa [size_of_program hp, ← Program.size_of_setBreakpoint? hset] at hplaced
  tidy := h.tidy
  budget := h.budget
  built _ hr := Option.some.inj hr ▸ (h.built p hp).setBreakpoint hset
  checked _ hr := Option.some.inj hr ▸ (h.checked p hp).setBreakpoint hset

/-- A command leaves the machine that its operation leaves. -/
theorem perform_return {α β : Type} (m : Machine) (action : Action α) (b : β) :
    (m.perform (action *> return b)).2 = (m.perform action).2 := by
  rw [perform_seqRight]
  rcases m.perform action with ⟨e | a, n⟩ <;> rfl

theorem Sound.loadSource {m : Machine} (h : m.Sound) (source : String) :
    (m.perform (loadSource source)).2.Sound := by
  rw [perform_loadSource]
  cases hassemble : Assembly.assemble source with
  | error e =>
    -- The old program is gone, and no new one has come.
    exact h.unloaded
  | ok p =>
    -- What the assembler gives has been built, and its instructions are accepted.
    exact h.installed (Assembly.built_of_assemble hassemble) (Assembly.checked_of_assemble hassemble)

theorem Sound.load {m : Machine} (h : m.Sound) {p : Program} (hp : p.Built) :
    (m.perform (load p)).2.Sound := by
  rw [perform_load]
  cases hflaw : p.firstFlaw? with
  | some flaw => exact h.unloaded
  | none => exact h.installed hp (p.firstFlaw?_eq_none_iff.1 hflaw)

/-- A way of running is safe if it leaves any state as it should be, wherever that state stands. -/
theorem Sound.running {m : Machine} (h : m.Sound) {α : Type}
    {f : Program → Budget → State → Except MachineError α × State}
    (hf : ∀ p b s, s.Tidy → (f p b s).2.Tidy ∧ (f p b s).2.Placed p.size) :
    (m.perform (running f)).2.Sound := by
  rw [perform_running]
  cases hprogram : m.program with
  | none => exact h
  | some p =>
    obtain ⟨htidy, hplaced⟩ := hf p m.budget m.state h.tidy
    rw [← size_of_program hprogram] at hplaced
    have hsound := h.withState hplaced htidy
    rwa [hprogram] at hsound

theorem Sound.run {m : Machine} (h : m.Sound) : (m.perform run).2.Sound :=
  h.running fun p b _ hs => State.sound_run hs p b

theorem Sound.step {m : Machine} (h : m.Sound) : (m.perform step).2.Sound :=
  h.running fun p _ _ hs => State.sound_step hs p

theorem Sound.goto {m : Machine} (h : m.Sound) (line : Nat) : (m.perform (goto line)).2.Sound := by
  rw [perform_goto]
  cases hprogram : m.program with
  | none => exact h
  | some p =>
    by_cases hline : line < p.size
    · rw [← size_of_program hprogram] at hline
      have hplaced : (m.state.goto line).Placed m.size := State.placed_of_lt hline
      have hsound := h.withState hplaced (h.tidy.goto line)
      rw [size_of_program hprogram] at hline
      simp only [if_pos hline]
      rwa [hprogram] at hsound
    · -- A line outside the program is refused.
      simp only [if_neg hline]
      exact h

theorem Sound.configure {m : Machine} (h : m.Sound) (b : Budget) :
    (m.perform (configure b)).2.Sound := by
  rw [perform_configure]
  cases hcheck : b.check with
  | error flaw => exact h
  | ok _ => exact { h with budget := hcheck }

theorem Sound.setBreakpoint {m : Machine} (h : m.Sound) (line : Nat) (on : Bool) :
    (m.perform (setBreakpoint line on)).2.Sound := by
  rw [perform_setBreakpoint]
  cases hprogram : m.program with
  | none => exact h
  | some p =>
    cases hset : p.setBreakpoint? line on with
    | none => simpa only [hset] using h
    | some q => simpa only [hset] using h.withBreakpoint hprogram hset

theorem Sound.toggleBreakpoint {m : Machine} (h : m.Sound) (line : Nat) :
    (m.perform (toggleBreakpoint line)).2.Sound := by
  rw [perform_toggleBreakpoint]
  cases hprogram : m.program with
  | none => exact h
  | some p =>
    cases htoggle : p.toggleBreakpoint? line with
    | none => simpa only [htoggle] using h
    | some pair =>
      have hset := Program.setBreakpoint?_of_toggleBreakpoint? htoggle
      simpa only [htoggle] using h.withBreakpoint hprogram hset

theorem Sound.readRegister {m : Machine} (h : m.Sound) (text : String) :
    (m.perform (readRegister text)).2.Sound := by
  rw [perform_readRegister]
  cases Register.ofName text <;> exact h

theorem Sound.writeRegister {m : Machine} (h : m.Sound) (text : String) (w : Word) :
    (m.perform (writeRegister text w)).2.Sound := by
  rw [perform_writeRegister]
  cases writable text with
  | error e => exact h
  | ok r => exact h.withTidy rfl (h.tidy.writeRegister r w)

theorem Sound.eraseRegister {m : Machine} (h : m.Sound) (text : String) :
    (m.perform (eraseRegister text)).2.Sound := by
  rw [perform_eraseRegister]
  cases writable text with
  | error e => exact h
  | ok r =>
    have hslot : (m.state.registers.erase r).slots[0] = none := by
      rw [RegisterFile.slot_zero_erase]
      exact h.tidy.zero
    exact h.withTidy rfl (h.tidy.withRegisters hslot)

theorem Sound.resetRegisters {m : Machine} (h : m.Sound) : (m.perform resetRegisters).2.Sound :=
  h.withTidy rfl (h.tidy.withRegisters RegisterFile.slot_zero_empty)

theorem Sound.readMemory {m : Machine} (h : m.Sound) (a : Address) :
    (m.perform (readMemory a)).2.Sound := by
  rw [perform_readMemory]
  split <;> exact h

theorem Sound.writeMemory {m : Machine} (h : m.Sound) (a : Address) (w : Word) :
    (m.perform (writeMemory a w)).2.Sound := by
  rw [perform_writeMemory]
  by_cases ha : Address.isAligned a = true
  · rw [Memory.write_of_isAligned ha]
    exact h.withTidy rfl (h.tidy.put ha w)
  · -- Where no cell starts nothing is written.
    have hrefused : m.state.memory.write a w = .error ⟨a⟩ := if_neg ha
    rw [hrefused]
    exact h

theorem Sound.eraseMemory {m : Machine} (h : m.Sound) (a : Address) :
    (m.perform (eraseMemory a)).2.Sound := by
  rw [perform_eraseMemory]
  split
  · exact h.withTidy rfl (h.tidy.erase a)
  · exact h

theorem Sound.readMemoryAt {m : Machine} (h : m.Sound) (text : String) :
    (m.perform (readMemoryAt text)).2.Sound := by
  rw [perform_readMemoryAt]
  cases addressNamed text with
  | error e => exact h
  | ok a => exact h.readMemory a

theorem Sound.writeMemoryAt {m : Machine} (h : m.Sound) (text : String) (w : Word) :
    (m.perform (writeMemoryAt text w)).2.Sound := by
  rw [perform_writeMemoryAt]
  cases addressNamed text with
  | error e => exact h
  | ok a => exact h.writeMemory a w

theorem Sound.resetMemory {m : Machine} (h : m.Sound) : (m.perform resetMemory).2.Sound :=
  h.withTidy rfl (h.tidy.withMemory State.tidy_initial.aligned)

theorem Sound.reset {m : Machine} (h : m.Sound) : (m.perform reset).2.Sound :=
  h.withState (State.placed_of_first _ rfl) State.tidy_initial

/-- **Every command leaves a machine as it should be**, whether it is granted or not. -/
theorem Sound.obey {m : Machine} (h : m.Sound) {c : Command} (hc : c.Admissible) :
    (m.obey c).2.Sound := by
  unfold Machine.obey
  -- One case for each command, settled by the operation for which it asks.
  cases c with
  | loadSource source => simpa only [Command.action, perform_return] using h.loadSource source
  | load p => simpa only [Command.action, perform_return] using h.load hc
  | run => simpa only [Command.action, perform_map] using h.run
  | step => simpa only [Command.action, perform_map] using h.step
  | goto line => simpa only [Command.action, perform_return] using h.goto line
  | configure b => simpa only [Command.action, perform_return] using h.configure b
  | setBreakpoint line on =>
    simpa only [Command.action, perform_return] using h.setBreakpoint line on
  | toggleBreakpoint line => simpa only [Command.action, perform_map] using h.toggleBreakpoint line
  | readRegister text => simpa only [Command.action, perform_map] using h.readRegister text
  | writeRegister text w =>
    simpa only [Command.action, perform_return] using h.writeRegister text w
  | eraseRegister text => simpa only [Command.action, perform_return] using h.eraseRegister text
  | resetRegisters => simpa only [Command.action, perform_return] using h.resetRegisters
  | readMemory a => simpa only [Command.action, perform_map] using h.readMemory a
  | writeMemory a w => simpa only [Command.action, perform_return] using h.writeMemory a w
  | eraseMemory a => simpa only [Command.action, perform_return] using h.eraseMemory a
  | readMemoryAt text => simpa only [Command.action, perform_map] using h.readMemoryAt text
  | writeMemoryAt text w =>
    simpa only [Command.action, perform_return] using h.writeMemoryAt text w
  | resetMemory => simpa only [Command.action, perform_return] using h.resetMemory
  | reset => simpa only [Command.action, perform_return] using h.reset

/-! ## §6 Every machine that commands can give -/

/-- The machines that any commands give, in any order and whatever they answer. -/
inductive Reachable : Machine → Prop where
  | initial : Reachable .initial
  | withBudget {b : Budget} {m : Machine} : Machine.withBudget b = .ok m → Reachable m
  | obey {m : Machine} {c : Command} : Reachable m → c.Admissible → Reachable (m.obey c).2

theorem Reachable.sound {m : Machine} (h : m.Reachable) : m.Sound := by
  -- On the history of the machine.
  induction h with
  | initial => exact sound_initial
  | withBudget hbudget => exact sound_withBudget hbudget
  | obey _ hc ih => exact ih.obey hc

/-- **What holds of every machine that commands can give.** If a program with lines is loaded, then the
next line is one of them, and otherwise it is the first; the budget is not nothing; every instruction
that is loaded is accepted; a label resolves to a line exactly if that line carries it; memory holds
words only at multiples of four; and `R0` reads zero without holding anything, so that two register
files are equal exactly if they read the same. -/
theorem Reachable.invariant {m : Machine} (h : m.Reachable) :
    (∀ p, m.program = some p → p.size ≠ 0 → m.state.pc < p.size) ∧
    ((∀ p, m.program = some p → p.size = 0) → m.state.pc = 0) ∧
    (m.budget.maxSteps ≠ 0 ∧ m.budget.maxJumps ≠ 0) ∧
    (∀ p, m.program = some p →
      (∀ line i, p.instruction? line = some i → i.check = .ok ()) ∧
      ∀ label line, p.resolve? label = some line ↔
        ∃ l, p.line? line = some l ∧ l.label = some label) ∧
    (∀ a w, m.state.memory.read a = some w → a.toInt % 4 = 0) ∧
    (m.state.registers.read .zero = some 0 ∧ m.state.registers.slots[0] = none) ∧
    ∀ n : Machine, n.Reachable →
      (m.state.registers = n.state.registers ↔
        ∀ r, m.state.registers.read r = n.state.registers.read r) := by
  have hsound := h.sound
  have hplaced := hsound.placed
  refine ⟨?_, ?_, m.budget.check_eq_ok_iff.1 hsound.budget, ?_, ?_, ?_, ?_⟩
  · intro p hp hne
    rwa [State.Placed, size_of_program hp, if_neg hne] at hplaced
  · -- No program and a program without lines come to the same: no lines are loaded.
    intro hempty
    have hsize : m.size = 0 := by
      rw [size]
      cases hp : m.program with
      | none => rfl
      | some p => exact hempty p hp
    rwa [State.Placed, if_pos hsize] at hplaced
  · intro p hp
    exact ⟨hsound.checked p hp, (hsound.built p hp).indexed⟩
  · intro a w hread
    have haligned := hsound.tidy.aligned a w hread
    simpa [Address.isAligned] using haligned
  · exact ⟨rfl, hsound.tidy.zero⟩
  · intro n hn
    exact RegisterFile.eq_iff_read_eq hsound.tidy.zero hn.sound.tidy.zero

/-- A program that stores a word and then fails for want of another. -/
def storing : Program :=
  .ofLines [
    ⟨some "Start", false, some (.store ⟨1000, .zero⟩ .zero)⟩,
    ⟨none, false, some (.load .link ⟨1004, .zero⟩)⟩,
    ⟨none, true, some .halt⟩]

/-- The machine on which that program has been run. -/
def stored : Machine :=
  ((initial.obey (.load storing)).2.obey .run).2

theorem reachable_stored : stored.Reachable :=
  .obey (.obey .initial (.ofLines _)) trivial

theorem reachable_invariant_stored :
    stored.Reachable ∧ stored.program = some storing ∧
      (stored.state.pc = 1 ∧ stored.state.pc < storing.size) ∧
      (stored.state.memory.read 1000 = some 0 ∧ (1000 : Address).toInt % 4 = 0) ∧
      (storing.resolve? "Start" = some 0 ↔
        ∃ l, storing.line? 0 = some l ∧ l.label = some "Start") := by
  have h := Reachable.invariant reachable_stored
  obtain ⟨hline, -, -, hprogram, haligned, -, -⟩ := h
  have hloaded : stored.program = some storing := rfl
  exact ⟨reachable_stored, hloaded, ⟨rfl, hline storing hloaded (by decide)⟩,
    ⟨rfl, haligned 1000 0 rfl⟩, (hprogram storing hloaded).2 "Start" 0⟩

end Machine

end Dlx
