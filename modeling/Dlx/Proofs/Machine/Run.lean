import Dlx.Machine.Run
import Dlx.Proofs.Machine.Dispatch

/-!
# The course of runs and steps

A run dispatches line after line until one of six things ends it. `State.Runs` says this as a relation
with one rule for each end and one for a line after which the run goes on, so that a fact about runs is
proved by induction with one case for each rule. The relation is the function: `runs_iff`.

A step dispatches one line, and what it does is given by equations, and by a relation with one rule for
each end (`State.Steps`).

- **§1** runs
- **§2** steps
- **§3** on a machine
-/

namespace Dlx

namespace State

/-! ## §1 Runs -/

/-- There is a line to be dispatched next, and no breakpoint keeps the run from it. The line at which
the run starts does not pause it. -/
def Dispatches (p : Program) (steps : Nat) (s : State) : Prop :=
  ∃ l, p.line? s.pc = some l ∧ ¬ (l.breakpoint = true ∧ steps ≠ 0)

/-- `Runs p limit left steps guard s stop t`: a run that is in state `s`, has dispatched `steps` lines and
may dispatch `left` more ends with `stop` in state `t`. -/
inductive Runs (p : Program) (limit : Nat) :
    Nat → Nat → Option JumpGuard → State → Except MachineError Stop → State → Prop where
  | exhausted {steps : Nat} {guard : Option JumpGuard} {s : State} :
      Runs p limit 0 steps guard s (.error (.tooManySteps limit)) s
  | missing {left steps : Nat} {guard : Option JumpGuard} {s : State} :
      p.line? s.pc = none →
      Runs p limit (left + 1) steps guard s (.error .haltNotFound) (s.goto 0)
  | paused {left steps : Nat} {guard : Option JumpGuard} {s : State} {l : Line} :
      p.line? s.pc = some l → l.breakpoint = true → steps ≠ 0 →
      Runs p limit (left + 1) steps guard s (.ok (.paused s.pc)) s
  | faulted {left steps : Nat} {guard g : Option JumpGuard} {s t : State} {fault : Fault} :
      s.Dispatches p steps → s.dispatch p s.pc guard = ⟨.error fault, t, g⟩ →
      Runs p limit (left + 1) steps guard s (.error (.fault s.pc fault)) t
  | halted {left steps : Nat} {guard g : Option JumpGuard} {s t : State} :
      s.Dispatches p steps → s.dispatch p s.pc guard = ⟨.ok .halt, t, g⟩ →
      Runs p limit (left + 1) steps guard s (.ok (.completed (steps + 1))) (t.goto 0)
  | ranOut {left steps : Nat} {guard g : Option JumpGuard} {s t : State} :
      s.Dispatches p steps → s.dispatch p s.pc guard = ⟨.ok .next, t, g⟩ → ¬ t.pc < p.size →
      Runs p limit (left + 1) steps guard s (.error .haltNotFound) (t.goto 0)
  | advanced {left steps : Nat} {guard g : Option JumpGuard} {s t u : State}
      {stop : Except MachineError Stop} :
      s.Dispatches p steps → s.dispatch p s.pc guard = ⟨.ok .next, t, g⟩ → t.pc < p.size →
      Runs p limit left (steps + 1) g t stop u →
      Runs p limit (left + 1) steps guard s stop u

/-- What a run does with a line that it dispatches. -/
theorem runFrom_of_dispatches {p : Program} {steps : Nat} {s : State} (h : s.Dispatches p steps)
    (limit left : Nat) (guard : Option JumpGuard) :
    s.runFrom p limit (left + 1) steps guard =
      match s.dispatch p s.pc guard with
      | ⟨.error fault, t, _⟩ => (.error (.fault s.pc fault), t)
      | ⟨.ok .halt, t, _⟩ => (.ok (.completed (steps + 1)), t.goto 0)
      | ⟨.ok .next, t, g⟩ =>
        if t.pc < p.size then t.runFrom p limit left (steps + 1) g
        else (.error .haltNotFound, t.goto 0) := by
  obtain ⟨l, hl, hpause⟩ := h
  rw [runFrom, hl]
  simp only [if_neg hpause]
  rcases s.dispatch p s.pc guard with ⟨fault | flow, t, g⟩
  · rfl
  · cases flow <;> rfl

theorem runs_runFrom (p : Program) (limit left steps : Nat) (guard : Option JumpGuard) (s : State) :
    Runs p limit left steps guard s (s.runFrom p limit left steps guard).1
      (s.runFrom p limit left steps guard).2 := by
  -- On the lines that may still be dispatched; the function is followed test by test.
  induction left generalizing steps guard s with
  | zero => exact .exhausted
  | succ left ih =>
    cases hl : p.line? s.pc with
    | none =>
      rw [runFrom, hl]
      exact .missing hl
    | some l =>
      by_cases hpause : l.breakpoint = true ∧ steps ≠ 0
      · rw [runFrom, hl]
        simp only [if_pos hpause]
        exact .paused hl hpause.1 hpause.2
      · have hdispatches : s.Dispatches p steps := ⟨l, hl, hpause⟩
        rw [runFrom_of_dispatches hdispatches]
        rcases he : s.dispatch p s.pc guard with ⟨fault | flow, t, g⟩
        · exact .faulted hdispatches he
        · cases flow with
          | halt => exact .halted hdispatches he
          | next =>
            by_cases hpc : t.pc < p.size
            · simp only [if_pos hpc]
              exact .advanced hdispatches he hpc (ih (steps + 1) g t)
            · simp only [if_neg hpc]
              exact .ranOut hdispatches he hpc

/-- **The relation is the function.** -/
theorem runs_iff (p : Program) (limit left steps : Nat) (guard : Option JumpGuard) (s t : State)
    (stop : Except MachineError Stop) :
    Runs p limit left steps guard s stop t ↔ s.runFrom p limit left steps guard = (stop, t) := by
  constructor
  · intro h
    induction h with
    | exhausted => rfl
    | missing hl => rw [runFrom, hl]
    | paused hl hbreakpoint hsteps => simp [runFrom, hl, hbreakpoint, hsteps]
    | faulted hdispatches he => rw [runFrom_of_dispatches hdispatches, he]
    | halted hdispatches he => rw [runFrom_of_dispatches hdispatches, he]
    | ranOut hdispatches he hpc =>
      rw [runFrom_of_dispatches hdispatches, he]
      exact if_neg hpc
    | advanced hdispatches he hpc _ ih =>
      rw [runFrom_of_dispatches hdispatches, he]
      simp only [if_pos hpc, ih]
  · intro h
    -- The function gives one end, and that end is related.
    have hruns := runs_runFrom p limit left steps guard s
    rwa [h] at hruns

/-! ## §2 Steps -/

/-- Wrapping around twice is wrapping around once. -/
theorem wrapped_wrapped (p : Program) (s : State) : (s.wrapped p).wrapped p = s.wrapped p := by
  unfold wrapped
  by_cases hpc : s.pc < p.size
  · simp [hpc]
  · simp [hpc]

theorem wrapped_of_lt {p : Program} {s : State} (h : s.pc < p.size) : s.wrapped p = s :=
  if_pos h

/-- If there is no line after wrapping around, then there is none at all, and the first line is next. -/
theorem goto_zero_of_missing {p : Program} {s : State} (hs : s.wrapped p = s)
    (h : p.line? s.pc = none) : s.goto 0 = s := by
  have hout : ¬ s.pc < p.size := by
    rw [p.lt_size_iff, h]
    simp
  rw [← hs, wrapped, if_neg hout, goto_goto]

/-- A step begins by wrapping around. -/
theorem step_wrapped (p : Program) (s : State) : (s.wrapped p).step p = s.step p := by
  rw [step, step, wrapped_wrapped]

theorem step_of_missing {p : Program} {s : State} (hs : s.wrapped p = s)
    (h : p.line? s.pc = none) : s.step p = (.error .haltNotFound, s) := by
  rw [step, hs, h]

/-- What a step does with the line that it dispatches. -/
theorem step_of_line {p : Program} {s : State} {l : Line} (hs : s.wrapped p = s)
    (h : p.line? s.pc = some l) :
    s.step p =
      match s.dispatch p s.pc none with
      | ⟨.error fault, t, _⟩ => (.error (.fault s.pc fault), t)
      | ⟨.ok .halt, t, _⟩ => (.ok (.halted s.pc), t.goto 0)
      | ⟨.ok .next, t, _⟩ =>
        if t.pc < p.size then (.ok (.stepped s.pc), t) else (.error .haltNotFound, t.goto 0) := by
  rw [step, hs, h]
  rcases s.dispatch p s.pc none with ⟨fault | flow, t, g⟩
  · rfl
  · cases flow <;> rfl

/-- `Steps p s result t`: a step from state `s`, which need not wrap around, ends with `result` in
state `t`. -/
inductive Steps (p : Program) (s : State) : Except MachineError Tick → State → Prop where
  | missing : p.line? s.pc = none → Steps p s (.error .haltNotFound) s
  | faulted {l : Line} {g : Option JumpGuard} {t : State} {fault : Fault} :
      p.line? s.pc = some l → s.dispatch p s.pc none = ⟨.error fault, t, g⟩ →
      Steps p s (.error (.fault s.pc fault)) t
  | halted {l : Line} {g : Option JumpGuard} {t : State} :
      p.line? s.pc = some l → s.dispatch p s.pc none = ⟨.ok .halt, t, g⟩ →
      Steps p s (.ok (.halted s.pc)) (t.goto 0)
  | ranOut {l : Line} {g : Option JumpGuard} {t : State} :
      p.line? s.pc = some l → s.dispatch p s.pc none = ⟨.ok .next, t, g⟩ → ¬ t.pc < p.size →
      Steps p s (.error .haltNotFound) (t.goto 0)
  | stepped {l : Line} {g : Option JumpGuard} {t : State} :
      p.line? s.pc = some l → s.dispatch p s.pc none = ⟨.ok .next, t, g⟩ → t.pc < p.size →
      Steps p s (.ok (.stepped s.pc)) t

theorem steps_step (p : Program) (s : State) : Steps p (s.wrapped p) (s.step p).1 (s.step p).2 := by
  rw [← step_wrapped]
  have hwrapped := wrapped_wrapped p s
  generalize s.wrapped p = s at hwrapped ⊢
  cases hl : p.line? s.pc with
  | none =>
    rw [step_of_missing hwrapped hl]
    exact .missing hl
  | some l =>
    rw [step_of_line hwrapped hl]
    rcases he : s.dispatch p s.pc none with ⟨fault | flow, t, g⟩
    · exact .faulted hl he
    · cases flow with
      | halt => exact .halted hl he
      | next =>
        by_cases hpc : t.pc < p.size
        · simp only [if_pos hpc]
          exact .stepped hl he hpc
        · simp only [if_neg hpc]
          exact .ranOut hl he hpc

/-- The relation is the function. -/
theorem steps_iff {p : Program} {s : State} (hs : s.wrapped p = s)
    (result : Except MachineError Tick) (t : State) :
    Steps p s result t ↔ s.step p = (result, t) := by
  constructor
  · intro h
    cases h with
    | missing hl => exact step_of_missing hs hl
    | faulted hl he | halted hl he => rw [step_of_line hs hl, he]
    | ranOut hl he hpc =>
      rw [step_of_line hs hl, he]
      exact if_neg hpc
    | stepped hl he hpc =>
      rw [step_of_line hs hl, he]
      exact if_pos hpc
  · intro h
    have hsteps := steps_step p s
    rwa [h, hs] at hsteps

end State

/-! ## §3 On a machine -/

namespace Machine

theorem perform_step (p : Program) (s : State) (b : Budget) :
    (⟨some p, s, b⟩ : Machine).perform step = ((s.step p).1, ⟨some p, (s.step p).2, b⟩) := by
  rw [step, perform_running]

theorem perform_run (p : Program) (s : State) (b : Budget) :
    (⟨some p, s, b⟩ : Machine).perform run = ((s.run p b).1, ⟨some p, (s.run p b).2, b⟩) := by
  rw [run, perform_running]

/-- A run changes neither the budget nor the program. -/
theorem budget_run (m : Machine) : (m.perform run).2.budget = m.budget := by
  rw [run, perform_running]
  cases m.program <;> rfl

theorem program_run (m : Machine) : (m.perform run).2.program = m.program := by
  rw [run, perform_running]
  cases hprogram : m.program with
  | none => exact hprogram
  | some p => rfl

end Machine

end Dlx
