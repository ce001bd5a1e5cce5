import Dlx.Proofs.Assembly.Operand
import Dlx.Proofs.Machine.Atomicity
import Dlx.Proofs.Machine.Cells

/-!
# Repairing a machine that missed a word

A run or a step that fails for want of a word says which cell is empty, and it can be believed: the cell
is empty, and a word can be put into it under the name by which the error calls it. After that no command
misses that cell, however many come and whatever they do, unless one of them empties it.

- **§1** filling and emptying a cell (`Cell.fill`, `Command.Clears`)
- **§2** runs and steps
- **§3** operations that leave a cell filled and do not miss it (`Machine.Spares`)
- **§4** commands, and histories of them
- **§5** missing words are found, and put in place
-/

namespace Dlx

/-! ## §1 Filling and emptying a cell -/

/-- The command that puts a word into a cell, by the name or the address of the cell. -/
def Cell.fill (w : Word) : Cell → Command
  | .register r => .writeRegister r.name w
  | .memory a => .writeMemory a w

/-- The commands that empty a cell. -/
def Command.Clears (cell : Cell) : Command → Prop
  | .eraseRegister text => ∃ r, Register.ofName text = .ok r ∧ cell = .register r
  | .eraseMemory a => cell = .memory a
  | .resetRegisters => ∃ r, cell = .register r
  | .resetMemory => ∃ a, cell = .memory a
  | .reset => True
  | _ => False

/-- A register other than `R0` can be written by its name. -/
theorem Machine.writable_name {r : Register} (h : r ≠ .zero) :
    Machine.writable r.name = .ok r :=
  (Machine.writable_eq_ok_iff r.name r).2 ⟨r.ofName_name, h⟩

/-- **An empty cell can be filled**: the command is granted, and the word is in the cell afterwards. -/
theorem Machine.obey_fill {m : Machine} {cell : Cell} (h : m.state.Lacks cell) (w : Word) :
    (m.obey (cell.fill w)).1 = .ok .done ∧ (m.obey (cell.fill w)).2.state.read cell = some w := by
  cases cell with
  | register r =>
    have hr : r ≠ .zero := fun hzero => h.ne_zero (congrArg Cell.register hzero)
    have hread := m.state.read_writeRegister r w (.register r)
    rw [if_pos ⟨rfl, hr⟩] at hread
    simp only [obey, Cell.fill, Command.action, perform_seqRight, perform_writeRegister,
      writable_name hr]
    exact ⟨rfl, hread⟩
  | memory a =>
    have ha := h.aligned a rfl
    have hread := m.state.read_put ha w (.memory a)
    rw [if_pos rfl] at hread
    simp only [obey, Cell.fill, Command.action, perform_seqRight, perform_writeMemory,
      Memory.write_of_isAligned ha]
    exact ⟨rfl, hread⟩

/-! ## §2 Runs and steps -/

namespace State

theorem Holds.run {s : State} {cell : Cell} (h : s.Holds cell) (p : Program) (b : Budget) :
    (s.run p b).2.Holds cell :=
  (runs_runFrom p _ _ 0 _ _).holds (h.wrapped p)

theorem Holds.step {s : State} {cell : Cell} (h : s.Holds cell) (p : Program) :
    (s.step p).2.Holds cell :=
  (steps_step p s).holds (h.wrapped p)

theorem lacks_of_run {p : Program} {b : Budget} {s : State} {line : Nat} {cell : Cell}
    (h : (s.run p b).1 = .error (.fault line (.noValue cell))) :
    (s.run p b).2.pc = line ∧ (s.run p b).2.Lacks cell :=
  (runs_runFrom p _ _ 0 _ _).lacks h

theorem lacks_of_step {p : Program} {s : State} {line : Nat} {cell : Cell}
    (h : (s.step p).1 = .error (.fault line (.noValue cell))) :
    (s.step p).2.pc = line ∧ (s.step p).2.Lacks cell := by
  have hsteps := steps_step p s
  rw [h] at hsteps
  exact hsteps.lacks

end State

namespace Machine

/-! ## §3 Operations -/

section

variable {α β : Type} {cell : Cell}

/-- If the cell holds a word, the operation does not miss it and leaves a word in it. -/
def Spares (cell : Cell) (action : Action α) : Prop :=
  ∀ m : Machine, m.state.Holds cell →
    (∀ line, (m.perform action).1 ≠ .error (.fault line (.noValue cell))) ∧
      (m.perform action).2.state.Holds cell

theorem spares_pure (a : α) : Spares cell (pure a) :=
  fun _ h => ⟨fun _ => by simp, h⟩

theorem spares_get : Spares cell get :=
  fun _ h => ⟨fun _ => by simp, h⟩

theorem spares_throw {e : MachineError} (he : ∀ line, e ≠ .fault line (.noValue cell)) :
    Spares cell (throw e : Action α) :=
  fun _ h => ⟨fun line hline => he line (Except.error.inj hline), h⟩

theorem spares_modify {f : Machine → Machine}
    (hf : ∀ m : Machine, m.state.Holds cell → (f m).state.Holds cell) : Spares cell (modify f) :=
  fun m h => ⟨fun _ => by simp, hf m h⟩

theorem Spares.bind {first : Action α} {second : α → Action β} (hfirst : Spares cell first)
    (hsecond : ∀ a, Spares cell (second a)) : Spares cell (first >>= second) := by
  intro m h
  have hm := hfirst m h
  rw [perform_bind]
  generalize m.perform first = answer at hm ⊢
  obtain ⟨e | a, n⟩ := answer
  · exact ⟨fun line hline => hm.1 line (congrArg Except.error (Except.error.inj hline)), hm.2⟩
  · exact hsecond a n hm.2

theorem Spares.map {action : Action α} (h : Spares cell action) (f : α → β) :
    Spares cell (f <$> action) := by
  rw [map_eq_pure_bind]
  exact h.bind fun a => spares_pure (f a)

theorem Spares.return {action : Action α} (h : Spares cell action) (b : β) :
    Spares cell (action *> return b) := by
  rw [seqRight_eq_bind]
  exact h.bind fun _ => spares_pure b

/-- An error of another kind is none for want of a word. -/
theorem spares_answer {ε : Type} {wrap : ε → MachineError} {result : Except ε α}
    (hwrap : ∀ flaw line, wrap flaw ≠ .fault line (.noValue cell)) :
    Spares cell (answer wrap result) := by
  cases result with
  | error flaw => exact spares_throw (hwrap flaw)
  | ok a => exact spares_pure a

theorem spares_loaded : Spares cell loaded := by
  refine spares_get.bind fun m => ?_
  split
  · exact spares_pure _
  · exact spares_throw (by simp)

/-- What does not look at the cells leaves them as they are. -/
theorem spares_modifyState {f : State → State} (hf : ∀ s : State, s.Holds cell → (f s).Holds cell) :
    Spares cell (modifyState f) :=
  spares_modify fun m h => hf m.state h

/-- A way of running that leaves the cell filled, and that tells the truth if it misses the cell. -/
theorem spares_running {f : Program → Budget → State → Except MachineError α × State}
    (hholds : ∀ p b s, s.Holds cell → (f p b s).2.Holds cell)
    (hlacks : ∀ p b s line, (f p b s).1 = .error (.fault line (.noValue cell)) →
      (f p b s).2.pc = line ∧ (f p b s).2.Lacks cell) :
    Spares cell (running f) := by
  intro m h
  rw [perform_running]
  cases m.program with
  | none => exact ⟨by simp, h⟩
  | some p =>
    have hleft := hholds p m.budget m.state h
    exact ⟨fun line hline => (hlacks p _ _ line hline).2.not_holds hleft, hleft⟩

theorem lacks_of_running {f : Program → Budget → State → Except MachineError α × State}
    (hlacks : ∀ p b s line, (f p b s).1 = .error (.fault line (.noValue cell)) →
      (f p b s).2.pc = line ∧ (f p b s).2.Lacks cell) {m : Machine} {line : Nat}
    (h : (m.perform (running f)).1 = .error (.fault line (.noValue cell))) :
    (m.perform (running f)).2.state.pc = line ∧ (m.perform (running f)).2.state.Lacks cell := by
  rw [perform_running] at h ⊢
  cases hprogram : m.program with
  | none => simp [hprogram] at h
  | some p =>
    simp only [hprogram] at h
    exact hlacks p m.budget m.state line h

end

section

variable {cell : Cell}

theorem spares_run : Spares cell run :=
  spares_running (fun p b _ h => h.run p b) fun _ _ _ _ => State.lacks_of_run

theorem spares_step : Spares cell step :=
  spares_running (fun p _ _ h => h.step p) fun _ _ _ _ => State.lacks_of_step

theorem spares_unload : Spares cell unload :=
  spares_modify fun _ h => h.goto 0

theorem spares_install (p : Program) : Spares cell (install p) :=
  spares_modify fun _ h => h.goto 0

theorem spares_loadSource (source : String) : Spares cell (loadSource source) :=
  spares_unload.bind fun _ => (spares_answer (by simp)).bind spares_install

theorem spares_load (p : Program) : Spares cell (load p) := by
  refine spares_unload.bind fun _ => ?_
  split
  · exact spares_throw (by simp)
  · exact spares_install p

theorem spares_configure (b : Budget) : Spares cell (configure b) :=
  (spares_answer (by simp)).bind fun _ => spares_modify fun _ h => h

theorem spares_goto (line : Nat) : Spares cell (goto line) := by
  refine spares_loaded.bind fun p => ?_
  split
  · exact spares_modifyState fun _ h => h.goto line
  · exact spares_throw (by simp)

theorem spares_setBreakpoint (line : Nat) (on : Bool) : Spares cell (setBreakpoint line on) := by
  refine spares_loaded.bind fun p => ?_
  split
  · exact spares_modify fun _ h => h
  · exact spares_throw (by simp)

theorem spares_toggleBreakpoint (line : Nat) : Spares cell (toggleBreakpoint line) := by
  refine spares_loaded.bind fun p => ?_
  split
  · exact (spares_modify fun _ h => h).bind fun _ => spares_pure _
  · exact spares_throw (by simp)

theorem spares_registerOfName (text : String) : Spares cell (registerOfName text) :=
  spares_answer (by simp)

theorem spares_writableOfName (text : String) : Spares cell (writableOfName text) := by
  refine (spares_registerOfName text).bind fun r => ?_
  split
  · exact spares_throw (by simp)
  · exact spares_pure r

theorem spares_readRegister (text : String) : Spares cell (readRegister text) :=
  (spares_registerOfName text).bind fun _ => spares_get.bind fun _ => spares_pure _

/-- A word that is put into a register leaves words in all cells that held one. -/
theorem spares_writeRegister (text : String) (w : Word) : Spares cell (writeRegister text w) := by
  refine (spares_writableOfName text).bind fun r => spares_modifyState fun s h => ?_
  rw [State.Holds, State.read_writeRegister]
  split
  · exact ⟨w, rfl⟩
  · exact h

/-- Another register than the one that is emptied. -/
theorem spares_eraseRegister {text : String}
    (hcell : ∀ r, Register.ofName text = .ok r → cell ≠ .register r) :
    Spares cell (eraseRegister text) := by
  intro m h
  have hname := spares_writableOfName text m h
  rw [perform_writableOfName] at hname
  rw [perform_eraseRegister]
  cases hwritable : writable text with
  | error e =>
    rw [hwritable] at hname
    exact ⟨fun line hline => hname.1 line (congrArg Except.error (Except.error.inj hline)), h⟩
  | ok r =>
    refine ⟨by simp, ?_⟩
    have hother : ¬ (cell = .register r ∧ r ≠ .zero) :=
      fun hsame => hcell r ((writable_eq_ok_iff text r).1 hwritable).1 hsame.1
    rw [State.Holds, State.read_eraseRegister, if_neg hother]
    exact h

theorem spares_addressOfText (text : String) : Spares cell (addressOfText text) := by
  unfold addressOfText
  split
  · exact spares_pure _
  · exact spares_throw (by simp)

theorem spares_readMemory (a : Address) : Spares cell (readMemory a) :=
  (spares_answer (by simp)).bind fun _ => spares_get.bind fun _ => spares_pure _

theorem spares_writeMemory (a : Address) (w : Word) : Spares cell (writeMemory a w) := by
  intro m h
  rw [perform_writeMemory]
  by_cases ha : Address.isAligned a = true
  · rw [Memory.write_of_isAligned ha]
    refine ⟨by simp, ?_⟩
    rw [State.Holds, State.read_put _ ha]
    split
    · exact ⟨w, rfl⟩
    · exact h
  · -- Where no cell starts nothing is written.
    have hrefused : m.state.memory.write a w = .error ⟨a⟩ := if_neg ha
    rw [hrefused]
    exact ⟨by simp, h⟩

/-- Another cell than the one that is emptied. -/
theorem spares_eraseMemory {a : Address} (hcell : cell ≠ .memory a) :
    Spares cell (eraseMemory a) := by
  intro m h
  rw [perform_eraseMemory]
  split
  · refine ⟨by simp, ?_⟩
    rw [State.Holds, State.read_eraseMemory, if_neg hcell]
    exact h
  · exact ⟨by simp, h⟩

theorem spares_readMemoryAt (text : String) : Spares cell (readMemoryAt text) :=
  (spares_addressOfText text).bind spares_readMemory

theorem spares_writeMemoryAt (text : String) (w : Word) : Spares cell (writeMemoryAt text w) :=
  (spares_addressOfText text).bind fun a => spares_writeMemory a w

theorem spares_resetRegisters (hcell : ∀ r, cell ≠ .register r) : Spares cell resetRegisters :=
  spares_modifyState fun s h => by
    cases cell with
    | register r => exact absurd rfl (hcell r)
    | memory a => exact h

theorem spares_resetMemory (hcell : ∀ a, cell ≠ .memory a) : Spares cell resetMemory :=
  spares_modifyState fun s h => by
    cases cell with
    | register r => exact h
    | memory a => exact absurd rfl (hcell a)

end

end Machine

/-! ## §4 Commands -/

/-- **No command misses a cell that holds a word**, and the cell holds a word afterwards unless the
command empties it. -/
theorem Command.spares_action {c : Command} {cell : Cell} (hc : ¬ c.Clears cell) :
    Machine.Spares cell c.action := by
  -- One case for each command, settled by the operation for which it asks.
  cases c with
  | loadSource source => exact (Machine.spares_loadSource source).return _
  | load p => exact (Machine.spares_load p).return _
  | run => exact Machine.spares_run.map _
  | step => exact Machine.spares_step.map _
  | goto line => exact (Machine.spares_goto line).return _
  | configure b => exact (Machine.spares_configure b).return _
  | setBreakpoint line on => exact (Machine.spares_setBreakpoint line on).return _
  | toggleBreakpoint line => exact (Machine.spares_toggleBreakpoint line).map _
  | readRegister text => exact (Machine.spares_readRegister text).map _
  | writeRegister text w => exact (Machine.spares_writeRegister text w).return _
  | eraseRegister text =>
    exact (Machine.spares_eraseRegister fun r hr hcell => hc ⟨r, hr, hcell⟩).return _
  | resetRegisters => exact (Machine.spares_resetRegisters fun r hcell => hc ⟨r, hcell⟩).return _
  | readMemory a => exact (Machine.spares_readMemory a).map _
  | writeMemory a w => exact (Machine.spares_writeMemory a w).return _
  | eraseMemory a => exact (Machine.spares_eraseMemory hc).return _
  | readMemoryAt text => exact (Machine.spares_readMemoryAt text).map _
  | writeMemoryAt text w => exact (Machine.spares_writeMemoryAt text w).return _
  | resetMemory => exact (Machine.spares_resetMemory fun a hcell => hc ⟨a, hcell⟩).return _
  | reset => exact absurd trivial hc

namespace Machine

/-- The machine after some commands, whatever it has answered. -/
def after (m : Machine) (cs : List Command) : Machine :=
  cs.foldl (fun n c => (n.obey c).2) m

/-- No history empties a cell without a command that empties it. -/
theorem holds_after {m : Machine} {cell : Cell} {cs : List Command}
    (hcs : ∀ c ∈ cs, ¬ c.Clears cell) (h : m.state.Holds cell) : (m.after cs).state.Holds cell := by
  -- On the history.
  induction cs generalizing m with
  | nil => exact h
  | cons c cs ih =>
    have hfirst := Command.spares_action (hcs c List.mem_cons_self) m h
    exact ih (fun d hd => hcs d (List.mem_cons_of_mem c hd)) hfirst.2

/-! ## §5 Missing words -/

/-- A run or a step that is refused for want of a word tells the truth. -/
theorem lacks_of_obey {m : Machine} {c : Command} (hc : c.Runs) {line : Nat} {cell : Cell}
    (h : (m.obey c).1 = .error (.fault line (.noValue cell))) :
    (m.obey c).2.state.pc = line ∧ (m.obey c).2.state.Lacks cell := by
  unfold obey at h ⊢
  cases c with
  | run =>
    have hrun := error_of_perform_map h
    rw [Command.action, perform_map]
    exact lacks_of_running (fun _ _ _ _ => State.lacks_of_run) hrun
  | step =>
    have hstep := error_of_perform_map h
    rw [Command.action, perform_map]
    exact lacks_of_running (fun _ _ _ _ => State.lacks_of_step) hstep
  | _ => exact hc.elim

/-- **A missing word is missing, and can be put in place for good.** If a run or a step is refused because
a cell holds no word, then the line that is named is next, the cell is empty, it is not `R0`, and if it is
a cell of memory, then its address is a multiple of four. Every word can be put into it, under the name of
the register or the address, and it is there afterwards. From then on no command is refused because that
cell holds no word, after any history in which no command empties the cell. -/
theorem missing_word_repaired {m : Machine} {c : Command} (hc : c.Runs) {line : Nat} {cell : Cell}
    (h : (m.obey c).1 = .error (.fault line (.noValue cell))) :
    (m.obey c).2.state.pc = line ∧
    (m.obey c).2.state.read cell = none ∧
    cell ≠ .register .zero ∧
    (∀ a, cell = .memory a → a.toInt % 4 = 0) ∧
    ∀ w, ((m.obey c).2.obey (cell.fill w)).1 = .ok .done ∧
      ((m.obey c).2.obey (cell.fill w)).2.state.read cell = some w ∧
      ∀ cs : List Command, (∀ d ∈ cs, ¬ d.Clears cell) →
        ∀ (d : Command) (other : Nat), ¬ d.Clears cell →
          ((((m.obey c).2.obey (cell.fill w)).2.after cs).obey d).1 ≠
            .error (.fault other (.noValue cell)) := by
  obtain ⟨hpc, hlacks⟩ := lacks_of_obey hc h
  refine ⟨hpc, hlacks.read, hlacks.ne_zero, fun a ha => ?_, fun w => ?_⟩
  · have haligned := hlacks.aligned a ha
    simpa [Address.isAligned] using haligned
  · obtain ⟨hdone, hread⟩ := obey_fill hlacks w
    refine ⟨hdone, hread, fun cs hcs d other hd => ?_⟩
    have hholds := holds_after hcs ⟨w, hread⟩
    exact (Command.spares_action hd _ hholds).1 other

theorem missing_word_repaired_stored :
    (stored.obey .run).1 = .error (.fault 1 (.noValue (.memory 1004))) ∧
    (stored.obey .run).2.state.pc = 1 ∧
    ((stored.obey .run).2.obey (Cell.fill 7 (.memory 1004))).1 = .ok .done ∧
    ((((stored.obey .run).2.obey (Cell.fill 7 (.memory 1004))).2.after
      [.run, .eraseRegister "R31", .resetRegisters, .load storing]).obey .run).1 ≠
        .error (.fault 1 (.noValue (.memory 1004))) := by
  have hmissed : (stored.obey .run).1 = .error (.fault 1 (.noValue (.memory 1004))) := rfl
  obtain ⟨hpc, -, -, -, hfill⟩ := missing_word_repaired (c := .run) trivial hmissed
  obtain ⟨hdone, -, hnever⟩ := hfill 7
  exact ⟨hmissed, hpc, hdone, hnever _ (by simp [Command.Clears]) .run 1 id⟩

end Machine

end Dlx
