import Dlx.Proofs.Machine.Invariant

/-!
# Errors change nothing

What fails has done nothing. An instruction that has a fault leaves the state as it was, so does a step
that comes to such an instruction, and so does everything else that a user asks for and that is refused.
Loading a program is the exception: if the program is refused, the one before it is gone as well.

- **§1** instructions and steps
- **§2** operations that change nothing (`Keeps`), that are always granted (`Granted`), and that change
  nothing if they fail (`Atomic`), and how these are put together
- **§3** each operation
- **§4** commands
-/

namespace Dlx

/-! ## §1 Instructions and steps -/

/-- **An effect that cannot be performed has changed nothing.** A jump is counted before the link is
written and before the program goes on elsewhere. -/
theorem Effect.state_of_perform_error {line : Nat} {s : State} {guard : Option JumpGuard}
    {effect : Effect} {fault : Fault} (h : (effect.perform line s guard).result = .error fault) :
    (effect.perform line s guard).state = s := by
  cases effect with
  | store target a w =>
    rw [perform] at h ⊢
    cases hwrite : s.memory.write a w with
    | error flaw => rfl
    | ok memory => simp [hwrite] at h
  | jump target linking =>
    rw [perform] at h ⊢
    rcases hcount : countJump ⟨line, target⟩ guard with ⟨verdict, g⟩
    cases verdict with
    | error refused => rfl
    | ok _ => simp [hcount] at h
  | write | pass | halt => simp [perform] at h

/-- An instruction that has a fault has changed nothing. -/
theorem Instruction.state_of_execute_error {p : Program} {line : Nat} {s : State}
    {guard : Option JumpGuard} {i : Instruction} {fault : Fault}
    (h : (i.execute p line s guard).result = .error fault) : (i.execute p line s guard).state = s := by
  rw [execute] at h ⊢
  cases heffect : i.effect p s with
  | error other => rfl
  | ok effect =>
    rw [heffect] at h
    exact Effect.state_of_perform_error h

namespace State

/-- A state whose next line is a line of the program need not wrap around. -/
theorem wrapped_of_placed {p : Program} {s : State} (h : s.Placed p.size) : s.wrapped p = s := by
  by_cases hpc : s.pc < p.size
  · exact wrapped_of_lt hpc
  · rw [wrapped, if_neg hpc]
    have hfirst : s.pc = 0 := by
      unfold Placed at h
      split at h
      · exact h
      · exact absurd h hpc
    rw [← hfirst, goto_pc]

theorem Steps.eq_of_error {p : Program} {s t : State} {e : MachineError}
    (h : Steps p s (.error e) t) (he : e ≠ .haltNotFound) : t = s := by
  cases h with
  | missing => exact absurd rfl he
  | faulted hl hdispatch =>
    -- The line at fault is next again, as it was before.
    have ht : t = s.goto s.pc := eq_goto_of_dispatch_error hdispatch
    rw [ht, goto_pc]
  | ranOut => exact absurd rfl he

/-- A step that fails has changed nothing, unless it has run past the last line. -/
theorem step_of_error {p : Program} {s : State} (hplaced : s.Placed p.size) {e : MachineError}
    (h : (s.step p).1 = .error e) (he : e ≠ .haltNotFound) : (s.step p).2 = s := by
  have hsteps := steps_step p s
  rw [wrapped_of_placed hplaced, h] at hsteps
  exact hsteps.eq_of_error he

end State

namespace Machine

/-! ## §2 Operations -/

section

variable {α β : Type}

/-- Whatever it answers, the operation leaves the machine as it was. -/
def Keeps (action : Action α) : Prop :=
  ∀ m : Machine, (m.perform action).2 = m

/-- The operation is granted by every machine. -/
def Granted (action : Action α) : Prop :=
  ∀ m : Machine, ∃ a, (m.perform action).1 = .ok a

/-- If it fails, the operation leaves the machine as it was. -/
def Atomic (action : Action α) : Prop :=
  ∀ (m : Machine) (e : MachineError), (m.perform action).1 = .error e → (m.perform action).2 = m

theorem Keeps.atomic {action : Action α} (h : Keeps action) : Atomic action :=
  fun m _ _ => h m

theorem Granted.atomic {action : Action α} (h : Granted action) : Atomic action := by
  intro m e he
  obtain ⟨a, ha⟩ := h m
  exact absurd (ha.symm.trans he) (by simp)

theorem Keeps.bind {first : Action α} {second : α → Action β} (hfirst : Keeps first)
    (hsecond : ∀ a, Keeps (second a)) : Keeps (first >>= second) := by
  intro m
  have hm := hfirst m
  rw [perform_bind]
  generalize m.perform first = answer at hm ⊢
  obtain ⟨f | a, n⟩ := answer
  · exact hm
  · exact (hsecond a n).trans hm

/-- What changes nothing may go before. -/
theorem Keeps.bind_atomic {first : Action α} {second : α → Action β} (hfirst : Keeps first)
    (hsecond : ∀ a, Atomic (second a)) : Atomic (first >>= second) := by
  intro m e he
  have hm := hfirst m
  rw [perform_bind] at he ⊢
  generalize m.perform first = answer at hm he ⊢
  obtain ⟨f | a, n⟩ := answer
  · exact hm
  · exact (hsecond a n e he).trans hm

/-- What cannot fail may follow. -/
theorem Atomic.bind_granted {first : Action α} {second : α → Action β} (hfirst : Atomic first)
    (hsecond : ∀ a, Granted (second a)) : Atomic (first >>= second) := by
  intro m e he
  have hm := hfirst m
  rw [perform_bind] at he ⊢
  generalize m.perform first = answer at hm he ⊢
  obtain ⟨f | a, n⟩ := answer
  · exact hm f rfl
  · obtain ⟨b, hb⟩ := hsecond a n
    exact absurd (hb.symm.trans he) (by simp)

theorem granted_pure (a : α) : Granted (pure a) :=
  fun _ => ⟨a, rfl⟩

theorem granted_modify (f : Machine → Machine) : Granted (modify f) :=
  fun _ => ⟨⟨⟩, rfl⟩

theorem keeps_pure (a : α) : Keeps (pure a) :=
  fun _ => rfl

theorem keeps_get : Keeps get :=
  fun _ => rfl

theorem keeps_throw (e : MachineError) : Keeps (throw e : Action α) :=
  fun _ => rfl

theorem keeps_answer {ε : Type} (wrap : ε → MachineError) (result : Except ε α) :
    Keeps (answer wrap result) := by
  intro m
  rw [perform_answer]

theorem keeps_loaded : Keeps loaded := by
  intro m
  rw [perform_loaded]
  cases m.program <;> rfl

/-- A command answers with what its operation answers. -/
theorem Atomic.map {action : Action α} (h : Atomic action) (f : α → β) : Atomic (f <$> action) := by
  rw [map_eq_pure_bind]
  exact h.bind_granted fun a => granted_pure (f a)

theorem Atomic.return {action : Action α} (h : Atomic action) (b : β) :
    Atomic (action *> return b) := by
  rw [seqRight_eq_bind]
  exact h.bind_granted fun _ => granted_pure b

end

/-! ## §3 Each operation -/

theorem atomic_configure (b : Budget) : Atomic (configure b) :=
  (keeps_answer _ _).bind_atomic fun _ => (granted_modify _).atomic

theorem atomic_goto (line : Nat) : Atomic (goto line) := by
  refine keeps_loaded.bind_atomic fun p => ?_
  split
  · exact (granted_modify _).atomic
  · exact (keeps_throw _).atomic

theorem atomic_setBreakpoint (line : Nat) (on : Bool) : Atomic (setBreakpoint line on) := by
  refine keeps_loaded.bind_atomic fun p => ?_
  split
  · exact (granted_modify _).atomic
  · exact (keeps_throw _).atomic

theorem atomic_toggleBreakpoint (line : Nat) : Atomic (toggleBreakpoint line) := by
  refine keeps_loaded.bind_atomic fun p => ?_
  split
  · exact (granted_modify _).atomic.bind_granted fun _ => granted_pure _
  · exact (keeps_throw _).atomic

theorem keeps_writableOfName (text : String) : Keeps (writableOfName text) := by
  refine (keeps_answer _ _).bind fun r => ?_
  split
  · exact keeps_throw _
  · exact keeps_pure r

theorem keeps_readRegister (text : String) : Keeps (readRegister text) :=
  (keeps_answer _ _).bind fun _ => keeps_get.bind fun _ => keeps_pure _

theorem atomic_writeRegister (text : String) (w : Word) : Atomic (writeRegister text w) :=
  (keeps_writableOfName text).bind_atomic fun _ => (granted_modify _).atomic

theorem atomic_eraseRegister (text : String) : Atomic (eraseRegister text) :=
  (keeps_writableOfName text).bind_atomic fun _ => (granted_modify _).atomic

theorem keeps_addressOfText (text : String) : Keeps (addressOfText text) := by
  unfold addressOfText
  split
  · exact keeps_pure _
  · exact keeps_throw _

theorem keeps_readMemory (a : Address) : Keeps (readMemory a) :=
  (keeps_answer _ _).bind fun _ => keeps_get.bind fun _ => keeps_pure _

theorem atomic_writeMemory (a : Address) (w : Word) : Atomic (writeMemory a w) :=
  keeps_get.bind_atomic fun _ => (keeps_answer _ _).bind_atomic fun _ => (granted_modify _).atomic

theorem atomic_eraseMemory (a : Address) : Atomic (eraseMemory a) :=
  (keeps_answer _ _).bind_atomic fun _ => (granted_modify _).atomic

theorem keeps_readMemoryAt (text : String) : Keeps (readMemoryAt text) :=
  (keeps_addressOfText text).bind keeps_readMemory

theorem atomic_writeMemoryAt (text : String) (w : Word) : Atomic (writeMemoryAt text w) :=
  (keeps_addressOfText text).bind_atomic fun a => atomic_writeMemory a w

end Machine

/-! ## §4 Commands -/

namespace Command

/-- The commands that load a program. -/
def Loads : Command → Prop
  | .loadSource _ | .load _ => True
  | _ => False

/-- The commands that run lines of the program. -/
def Runs : Command → Prop
  | .run | .step => True
  | _ => False

/-- **A command that is refused changes nothing**, if it neither loads a program nor runs lines of it. -/
theorem atomic_action {c : Command} (hloads : ¬ c.Loads) (hruns : ¬ c.Runs) :
    Machine.Atomic c.action := by
  cases c with
  | loadSource | load => exact absurd trivial hloads
  | run | step => exact absurd trivial hruns
  | goto line => exact (Machine.atomic_goto line).return _
  | configure b => exact (Machine.atomic_configure b).return _
  | setBreakpoint line on => exact (Machine.atomic_setBreakpoint line on).return _
  | toggleBreakpoint line => exact (Machine.atomic_toggleBreakpoint line).map _
  | readRegister text => exact (Machine.keeps_readRegister text).atomic.map _
  | writeRegister text w => exact (Machine.atomic_writeRegister text w).return _
  | eraseRegister text => exact (Machine.atomic_eraseRegister text).return _
  | readMemory a => exact (Machine.keeps_readMemory a).atomic.map _
  | writeMemory a w => exact (Machine.atomic_writeMemory a w).return _
  | eraseMemory a => exact (Machine.atomic_eraseMemory a).return _
  | readMemoryAt text => exact (Machine.keeps_readMemoryAt text).atomic.map _
  | writeMemoryAt text w => exact (Machine.atomic_writeMemoryAt text w).return _
  | resetRegisters | resetMemory | reset => exact (Machine.granted_modify _).atomic.return _

end Command

namespace Machine

/-- A program that is refused takes the one before it with it. -/
theorem obey_of_loads {m : Machine} {c : Command} (hloads : c.Loads) {e : MachineError}
    (h : (m.obey c).1 = .error e) : (m.obey c).2 = m.unloaded := by
  rw [obey] at h ⊢
  cases c with
  | loadSource source =>
    rw [Command.action, perform_seqRight, perform_loadSource] at h ⊢
    cases hassemble : Assembly.assemble source with
    | error flaw => rfl
    | ok p => simp [hassemble] at h
  | load p =>
    rw [Command.action, perform_seqRight, perform_load] at h ⊢
    cases hflaw : p.firstFlaw? with
    | some flaw => rfl
    | none => simp [hflaw] at h
  | _ => exact hloads.elim

/-- A step of a machine that fails has changed nothing, unless it has run past the last line. -/
theorem obey_step_of_error {m : Machine} (hm : m.Sound) {e : MachineError}
    (h : (m.obey .step).1 = .error e) (he : e ≠ .haltNotFound) : (m.obey .step).2 = m := by
  have hplaced := hm.placed
  have herror : (m.perform step).1 = .error e := error_of_perform_map h
  obtain ⟨program, s, b⟩ := m
  rw [obey, Command.action, perform_map]
  cases program with
  | none => rfl
  | some p =>
    rw [perform_step] at herror ⊢
    exact congrArg (fun t => (⟨some p, t, b⟩ : Machine)) (State.step_of_error hplaced herror he)

/-- **Errors change nothing.** An instruction that has a fault leaves registers, memory and the next line
as they were, whatever program it belongs to and whatever guards its jumps. A step that fails leaves the
whole machine as it was, unless it has run past the last line, and so does every command that neither
runs nor loads a program. A program that is refused leaves no program, with the first line next. -/
theorem errors_atomic :
    (∀ (i : Instruction) (p : Program) (line : Nat) (s : State) (guard : Option JumpGuard)
      (fault : Fault), (i.execute p line s guard).result = .error fault →
        (i.execute p line s guard).state = s) ∧
    ∀ m : Machine, m.Reachable →
      (∀ e, (m.obey .step).1 = .error e → e ≠ .haltNotFound → (m.obey .step).2 = m) ∧
      (∀ c : Command, ¬ c.Loads → ¬ c.Runs → ∀ e, (m.obey c).1 = .error e → (m.obey c).2 = m) ∧
      ∀ c : Command, c.Loads → ∀ e, (m.obey c).1 = .error e →
        (m.obey c).2 = { m with program := none, state := m.state.goto 0 } := by
  refine ⟨?_, fun m hm => ⟨?_, ?_, ?_⟩⟩
  · exact fun i p line s guard fault h => Instruction.state_of_execute_error h
  · exact fun e h he => obey_step_of_error hm.sound h he
  · exact fun c hloads hruns e h => Command.atomic_action hloads hruns m e h
  · exact fun c hloads e h => obey_of_loads hloads h

/-- A program that no mnemonics can write. -/
def unwritable : Program :=
  .ofLines [⟨none, false, some (.immediate .mult .link .zero 0)⟩]

theorem errors_atomic_stored :
    ((Instruction.execute unwritable 0 .initial none (.store ⟨1000, .zero⟩ .link)).result =
        .error (.noValue (.register .link)) ∧
      (Instruction.execute unwritable 0 .initial none (.store ⟨1000, .zero⟩ .link)).state = .initial) ∧
    stored.Reachable ∧
    ((stored.obey .step).1 = .error (.fault 1 (.noValue (.memory 1004))) ∧
      (stored.obey .step).2 = stored) ∧
    ((stored.obey (.goto 3)).1 = .error (.lineOutOfRange 3 3) ∧ (stored.obey (.goto 3)).2 = stored) ∧
    ((stored.obey (.load unwritable)).1 = .error (.badInstruction 0 ⟨.mult⟩) ∧
      (stored.obey (.load unwritable)).2.program = none ∧
      (stored.obey (.load unwritable)).2.state.memory.read 1000 = some 0) := by
  obtain ⟨hexecute, hobey⟩ := errors_atomic
  obtain ⟨hstep, hkeeps, hloads⟩ := hobey stored reachable_stored
  have hgoto : (stored.obey (.goto 3)).1 = .error (.lineOutOfRange 3 3) := rfl
  have hload : (stored.obey (.load unwritable)).1 = .error (.badInstruction 0 ⟨.mult⟩) := rfl
  have hunloaded := hloads (.load unwritable) trivial _ hload
  refine ⟨⟨rfl, hexecute _ _ _ _ _ _ rfl⟩, reachable_stored, ⟨rfl, hstep _ rfl (by simp)⟩,
    ⟨hgoto, hkeeps (.goto 3) id id _ hgoto⟩, hload, ?_, ?_⟩
  · rw [hunloaded]
  · rw [hunloaded]
    rfl

end Machine

end Dlx
