import Dlx.Machine.Basic

/-!
# Running a program

A program is run in two ways. A *run* dispatches line after line under a budget until the program
halts, pauses at a breakpoint, or cannot go on; the line at which it starts does not pause it. A *step*
dispatches one line, without a budget and without looking at breakpoints.

Both start at the first line if the next line lies outside the program. Both return to the first line
when the program halts and when it runs past its last line.
-/

namespace Dlx

/-! ## §1 Ends -/

/-- How a run ends that is not in error. -/
inductive Stop where
  | completed (steps : Nat)
  | paused (line : Nat)
  deriving DecidableEq, Repr

/-- What a step that is not in error has done. -/
inductive Tick where
  | stepped (line : Nat)
  | halted (line : Nat)
  deriving DecidableEq, Repr

namespace State

/-- The state at the first line if the next line lies outside the program. -/
def wrapped (p : Program) (s : State) : State :=
  if s.pc < p.size then s else s.goto 0

/-! ## §2 Runs -/

/-- Dispatches lines from a state. At most `left` more may be dispatched, and `steps` have been
dispatched already. The budget is looked at before the line, so a run that has used it up reports that
even if a breakpoint is next. -/
def runFrom (p : Program) (limit : Nat) :
    Nat → Nat → Option JumpGuard → State → Except MachineError Stop × State
  | 0, _, _, s => (.error (.tooManySteps limit), s)
  | left + 1, steps, guard, s =>
    match p.line? s.pc with
    | none => (.error .haltNotFound, s.goto 0)
    | some l =>
      -- The line at which the run starts does not pause it, or it could never be resumed.
      if l.breakpoint ∧ steps ≠ 0 then (.ok (.paused s.pc), s)
      else
        let e := s.dispatch p s.pc guard
        match e.result with
        | .error fault => (.error (.fault s.pc fault), e.state)
        | .ok .halt => (.ok (.completed (steps + 1)), e.state.goto 0)
        | .ok .next =>
          if e.state.pc < p.size then runFrom p limit left (steps + 1) e.guard e.state
          else (.error .haltNotFound, e.state.goto 0)

/-- Runs a program under a budget. -/
def run (p : Program) (b : Budget) (s : State) : Except MachineError Stop × State :=
  (s.wrapped p).runFrom p b.maxSteps.toNat b.maxSteps.toNat 0
    (some (.start p.size b.maxJumps.toNat))

/-! ## §3 Steps -/

/-- Runs one line of a program. -/
def step (p : Program) (s : State) : Except MachineError Tick × State :=
  let s := s.wrapped p
  match p.line? s.pc with
  | none => (.error .haltNotFound, s)
  | some _ =>
    let e := s.dispatch p s.pc none
    match e.result with
    | .error fault => (.error (.fault s.pc fault), e.state)
    | .ok .halt => (.ok (.halted s.pc), e.state.goto 0)
    | .ok .next =>
      if e.state.pc < p.size then (.ok (.stepped s.pc), e.state)
      else (.error .haltNotFound, e.state.goto 0)

end State

/-! ## §4 On a machine -/

namespace Machine

/-- Applies a way of running to the program that is loaded. -/
def running {α : Type} (f : Program → Budget → State → Except MachineError α × State) :
    Action α := do
  let p ← loaded
  let m ← get
  let (result, state) := f p m.budget m.state
  set { m with state }
  answer id result

theorem perform_running {α : Type} (m : Machine)
    (f : Program → Budget → State → Except MachineError α × State) :
    m.perform (running f) =
      match m.program with
      | some p => ((f p m.budget m.state).1, { m with state := (f p m.budget m.state).2 })
      | none => (.error .noProgram, m) := by
  cases h : m.program with
  | none => simp [running, perform_bind, perform_loaded, h]
  | some p =>
    simp only [running, perform_bind, perform_loaded, h, perform_get, perform_set, perform_answer]
    cases (f p m.budget m.state).1 <;> rfl

/-- Runs the program from the next line. -/
def run : Action Stop :=
  running fun p b s => s.run p b

/-- Runs one line of the program. -/
def step : Action Tick :=
  running fun p _ s => s.step p

end Machine

end Dlx
