import Dlx.Machine.Command

/-!
# What each operation does

One equation for each operation on a machine: what it answers, and which machine it leaves. An operation
that fails leaves the machine as it was, except for the two that load a program, which unload the old
one first.

The operations are given in the order in which the machine offers them.
-/

namespace Dlx.Machine

/-! ## §1 Sequences -/

@[simp]
theorem perform_map {α β : Type} (m : Machine) (f : α → β) (action : Action α) :
    m.perform (f <$> action) = ((m.perform action).1.map f, (m.perform action).2) := by
  rw [map_eq_pure_bind, perform_bind]
  rcases m.perform action with ⟨e | a, n⟩ <;> rfl

/-- An error of the mapped operation is an error of the operation. -/
theorem error_of_perform_map {α β : Type} {m : Machine} {f : α → β} {action : Action α}
    {e : MachineError} (h : (m.perform (f <$> action)).1 = .error e) :
    (m.perform action).1 = .error e := by
  rw [perform_map] at h
  cases hresult : (m.perform action).1 with
  | error other =>
    rw [hresult] at h
    exact congrArg Except.error (Except.error.inj h)
  | ok a =>
    rw [hresult] at h
    exact absurd h (by simp [Except.map])

@[simp]
theorem perform_seqRight {α β : Type} (m : Machine) (first : Action α) (second : Action β) :
    m.perform (first *> second) =
      match m.perform first with
      | (.ok _, n) => n.perform second
      | (.error e, n) => (.error e, n) := by
  rw [seqRight_eq_bind]
  exact perform_bind m first fun _ => second

@[simp]
theorem perform_modifyState (m : Machine) (f : State → State) :
    m.perform (modifyState f) = (.ok (), { m with state := f m.state }) := rfl

/-! ## §2 Loading -/

/-- The machine without a program, at the first line. -/
def unloaded (m : Machine) : Machine :=
  { m with program := none, state := m.state.goto 0 }

/-- The machine with a program, at the first line. -/
def installed (m : Machine) (p : Program) : Machine :=
  { m with program := some p, state := m.state.goto 0 }

theorem perform_loadSource (m : Machine) (source : String) :
    m.perform (loadSource source) =
      match Assembly.assemble source with
      | .ok p => (.ok (), m.installed p)
      | .error e => (.error (.assembly e), m.unloaded) := by
  simp only [loadSource, unload, install, perform_bind, perform_modify, perform_answer]
  cases Assembly.assemble source <;> rfl

theorem perform_load (m : Machine) (p : Program) :
    m.perform (load p) =
      match p.firstFlaw? with
      | some (line, flaw) => (.error (.badInstruction line flaw), m.unloaded)
      | none => (.ok (), m.installed p) := by
  simp only [load, unload, install, perform_bind, perform_modify]
  cases p.firstFlaw? <;> rfl

/-! ## §3 Settings -/

theorem perform_configure (m : Machine) (b : Budget) :
    m.perform (configure b) =
      match b.check with
      | .ok _ => (.ok (), { m with budget := b })
      | .error flaw => (.error (.badBudget flaw), m) := by
  simp only [configure, perform_bind, perform_answer]
  cases b.check <;> rfl

theorem perform_goto (m : Machine) (line : Nat) :
    m.perform (goto line) =
      match m.program with
      | none => (.error .noProgram, m)
      | some p =>
        if line < p.size then (.ok (), { m with state := m.state.goto line })
        else (.error (.lineOutOfRange line p.size), m) := by
  simp only [goto, perform_bind, perform_loaded]
  cases hprogram : m.program with
  | none => rfl
  | some p => by_cases hline : line < p.size <;> simp [hline, hprogram]

theorem perform_setBreakpoint (m : Machine) (line : Nat) (on : Bool) :
    m.perform (setBreakpoint line on) =
      match m.program with
      | none => (.error .noProgram, m)
      | some p =>
        match p.setBreakpoint? line on with
        | some q => (.ok (), { m with program := some q })
        | none => (.error (.lineOutOfRange line p.size), m) := by
  simp only [setBreakpoint, perform_bind, perform_loaded]
  cases m.program with
  | none => rfl
  | some p => cases hset : p.setBreakpoint? line on <;> simp [hset]

theorem perform_toggleBreakpoint (m : Machine) (line : Nat) :
    m.perform (toggleBreakpoint line) =
      match m.program with
      | none => (.error .noProgram, m)
      | some p =>
        match p.toggleBreakpoint? line with
        | some (on, q) => (.ok on, { m with program := some q })
        | none => (.error (.lineOutOfRange line p.size), m) := by
  simp only [toggleBreakpoint, perform_bind, perform_loaded]
  cases m.program with
  | none => rfl
  | some p => cases htoggle : p.toggleBreakpoint? line <;> simp [htoggle, Except.map]

/-! ## §4 Registers -/

/-- The register that a name denotes for writing, or the error that says why there is none. -/
def writable (text : String) : Except MachineError Register :=
  match Register.ofName text with
  | .error _ => .error (.badRegister text)
  | .ok r => if r.isZero then .error .readOnly else .ok r

/-- All registers but `R0` can be written. -/
theorem writable_eq_ok_iff (text : String) (r : Register) :
    writable text = .ok r ↔ Register.ofName text = .ok r ∧ r ≠ .zero := by
  rw [writable]
  cases Register.ofName text with
  | error flaw => simp
  | ok q =>
    by_cases hq : q = .zero
    · simp [Register.isZero, hq, eq_comm]
    · simp only [Register.isZero, beq_iff_eq, hq, if_false, Except.ok.injEq, iff_self_and]
      intro heq
      rwa [← heq]

theorem perform_writableOfName (m : Machine) (text : String) :
    m.perform (writableOfName text) = (writable text, m) := by
  simp only [writableOfName, registerOfName, writable, perform_bind, perform_answer]
  cases Register.ofName text with
  | error flaw => rfl
  | ok r =>
    change m.perform (if r.isZero then throw .readOnly else pure r) =
      (if r.isZero then .error .readOnly else .ok r, m)
    split <;> rfl

theorem perform_readRegister (m : Machine) (text : String) :
    m.perform (readRegister text) =
      match Register.ofName text with
      | .error _ => (.error (.badRegister text), m)
      | .ok r => (.ok (m.state.registers.read r), m) := by
  simp only [readRegister, registerOfName, perform_bind, perform_answer]
  cases Register.ofName text <;> rfl

theorem perform_writeRegister (m : Machine) (text : String) (w : Word) :
    m.perform (writeRegister text w) =
      match writable text with
      | .error e => (.error e, m)
      | .ok r => (.ok (), { m with state := m.state.writeRegister r w }) := by
  simp only [writeRegister, perform_bind, perform_writableOfName]
  cases writable text <;> rfl

theorem perform_eraseRegister (m : Machine) (text : String) :
    m.perform (eraseRegister text) =
      match writable text with
      | .error e => (.error e, m)
      | .ok r =>
        (.ok (), { m with state := { m.state with registers := m.state.registers.erase r } }) := by
  simp only [eraseRegister, perform_bind, perform_writableOfName]
  cases writable text <;> rfl

/-! ## §5 Memory -/

/-- The address that a text denotes, or the error that says that it denotes none. -/
def addressNamed (text : String) : Except MachineError Address :=
  match Assembly.addressOfText? (String.ofList (Text.trim text.toList)) with
  | some a => .ok a
  | none => .error (.badAddress text)

theorem perform_addressOfText (m : Machine) (text : String) :
    m.perform (addressOfText text) = (addressNamed text, m) := by
  unfold addressOfText addressNamed
  cases Assembly.addressOfText? (String.ofList (Text.trim text.toList)) <;> rfl

theorem perform_readMemory (m : Machine) (a : Address) :
    m.perform (readMemory a) =
      if a.isAligned then (.ok (m.state.memory.read a), m) else (.error (.misaligned ⟨a⟩), m) := by
  simp only [readMemory, perform_bind, perform_answer, Address.aligned]
  by_cases ha : Address.isAligned a = true
  · rw [if_pos ha, if_pos ha]
    rfl
  · rw [if_neg ha, if_neg ha]
    rfl

theorem perform_writeMemory (m : Machine) (a : Address) (w : Word) :
    m.perform (writeMemory a w) =
      match m.state.memory.write a w with
      | .ok memory => (.ok (), { m with state := { m.state with memory } })
      | .error flaw => (.error (.misaligned flaw), m) := by
  simp only [writeMemory, perform_bind, perform_get, perform_answer]
  cases m.state.memory.write a w <;> rfl

theorem perform_eraseMemory (m : Machine) (a : Address) :
    m.perform (eraseMemory a) =
      if a.isAligned then
        (.ok (), { m with state := { m.state with memory := m.state.memory.erase a } })
      else (.error (.misaligned ⟨a⟩), m) := by
  simp only [eraseMemory, perform_bind, perform_answer, Address.aligned]
  by_cases ha : Address.isAligned a = true
  · rw [if_pos ha, if_pos ha]
    rfl
  · rw [if_neg ha, if_neg ha]
    rfl

theorem perform_readMemoryAt (m : Machine) (text : String) :
    m.perform (readMemoryAt text) =
      match addressNamed text with
      | .ok a => m.perform (readMemory a)
      | .error e => (.error e, m) := by
  simp only [readMemoryAt, perform_bind, perform_addressOfText]
  cases addressNamed text <;> rfl

theorem perform_writeMemoryAt (m : Machine) (text : String) (w : Word) :
    m.perform (writeMemoryAt text w) =
      match addressNamed text with
      | .ok a => m.perform (writeMemory a w)
      | .error e => (.error e, m) := by
  simp only [writeMemoryAt, perform_bind, perform_addressOfText]
  cases addressNamed text <;> rfl

end Dlx.Machine
