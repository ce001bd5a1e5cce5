import Dlx.Proofs.Machine.Lockstep
import Dlx.Proofs.Session.Resumption

/-!
# Stepping through a program and running it

A step session takes line after line without a guard over jumps, and counts all of them. A run session
pauses at breakpoints, and what it counts it counts anew after each pause. So a run session has at least
as many lines left as the step session beside it, and both do the same until the steps end, unless a jump
is refused to the run.

- **§1** how two sessions compare (`Agrees`)
- **§2** one line of both sessions (`KeepsUp`)
- **§3** whole sessions
-/

namespace Dlx.Session

/-! ## §1 Comparing sessions -/

/-- The session has used up the number of lines that it may run. -/
def Transcript.OutOfSteps (t : Transcript) : Prop :=
  ∃ limit, t.ending = .failed (.tooManySteps limit)

/-- A jump has been refused to the session because it was taken too often. -/
def Transcript.JumpRefused (t : Transcript) : Prop :=
  ∃ line source target, t.ending = .failed (.fault line (.tooManyJumps source target))

/-- Both sessions end in the same way and leave the same machine. -/
structure Transcript.EndsAs (t u : Transcript) : Prop where
  ending : t.ending = u.ending
  machine : t.machine = u.machine

/-- A run session agrees with a step session: it ends in the same way, or a jump is refused to it. -/
def Agrees (run step : Transcript) : Prop :=
  run.EndsAs step ∨ run.JumpRefused

/-- A run that has `more` lines left can be compared with `left` steps if the steps do not use up their
number, or if both use it up together and no breakpoint gives the run more. -/
def Comparable (p : Program) (left more : Nat) (step : Transcript) : Prop :=
  ¬ step.OutOfSteps ∨ p.breakpoints = [] ∧ more = left

/-! ## §2 One line -/

section

variable {p : Program} {b : Budget} {s : State}

/-- What a step session does with the next line. -/
theorem stepFrom_succ (p : Program) (b : Budget) (s : State) (limit left : Nat) (seen : List Event) :
    stepFrom limit (left + 1) seen ⟨some p, s, b⟩ =
      match s.step p with
      | (.ok (.stepped line), t) =>
        stepFrom limit left (executedEvent ⟨some p, t, b⟩ line ++ seen) ⟨some p, t, b⟩
      | (.ok (.halted line), t) =>
        ⟨(executedEvent ⟨some p, t, b⟩ line ++ seen).reverse, .finished, ⟨some p, t, b⟩⟩
      | (.error e, t) => ⟨seen.reverse, .failed e, ⟨some p, t, b⟩⟩ := by
  rw [stepFrom, Machine.perform_step]
  rcases s.step p with ⟨e | tick, t⟩
  · rfl
  · cases tick <;> rfl

/-- A run session keeps up with up to `left` steps from a state: wherever its present run stands in its
budget, what remains of it agrees with the steps. -/
def KeepsUp (p : Program) (b : Budget) (left : Nat) (s : State) : Prop :=
  ∀ (seen : List Event) (more steps : Nat) (g : JumpGuard) (runs : Nat) (events : List Event),
    left ≤ more → left ≤ runs → g.Fits p →
    Comparable p left more (stepFrom b.maxSteps.toNat left seen ⟨some p, s, b⟩) →
    Agrees (resume p b runs events (s.runFrom p b.maxSteps.toNat more steps (some g)))
      (stepFrom b.maxSteps.toNat left seen ⟨some p, s, b⟩)

/-- With no steps left, the run has used up its lines as well, or there is nothing to compare. -/
theorem keepsUp_zero (p : Program) (b : Budget) (s : State) : KeepsUp p b 0 s := by
  intro seen more steps g runs events _ _ _ hcomparable
  obtain hsteps | ⟨-, rfl⟩ := hcomparable
  · exact absurd ⟨b.maxSteps.toNat, rfl⟩ hsteps
  · exact .inl ⟨rfl, rfl⟩

/-- Where there is no line, neither session goes on. -/
theorem keepsUp_of_missing (hs : s.wrapped p = s) (hl : p.line? s.pc = none) (left : Nat) :
    KeepsUp p b (left + 1) s := by
  intro seen more steps g runs events hmore _ _ _
  obtain ⟨more, rfl⟩ := Nat.exists_eq_add_one_of_ne_zero (Nat.ne_zero_of_lt hmore)
  rw [stepFrom_succ, State.step_of_missing hs hl, State.runFrom, hl]
  refine .inl ⟨rfl, ?_⟩
  show (⟨some p, s.goto 0, b⟩ : Machine) = ⟨some p, s, b⟩
  rw [State.goto_zero_of_missing hs hl]

/-- **A line that both sessions dispatch.** If the run session keeps up from wherever the line leads to,
then it keeps up from the line on: the line does the same with a guard as without one, unless the guard
refuses its jump. -/
theorem agrees_of_dispatches (hp : p.Indexed) {left : Nat}
    (hrest : ∀ t : State, t.pc < p.size → KeepsUp p b left t) {more steps runs : Nat} {g : JumpGuard}
    (hdispatches : s.Dispatches p steps) (hmore : left ≤ more) (hruns : left ≤ runs) (hg : g.Fits p)
    (seen events : List Event)
    (hcomparable : Comparable p (left + 1) (more + 1)
      (stepFrom b.maxSteps.toNat (left + 1) seen ⟨some p, s, b⟩)) :
    Agrees (resume p b runs events (s.runFrom p b.maxSteps.toNat (more + 1) steps (some g)))
      (stepFrom b.maxSteps.toNat (left + 1) seen ⟨some p, s, b⟩) := by
  have hrun := State.runFrom_of_dispatches hdispatches b.maxSteps.toNat more (some g)
  obtain ⟨l, hl, -⟩ := hdispatches
  have hlt : s.pc < p.size := Program.lt_size_of_line? hl
  have hstep := State.step_of_line (State.wrapped_of_lt hlt) hl
  obtain ⟨target, -, hrefused⟩ | ⟨result, t, g', hfits, hsome, hnone⟩ := State.dispatch_some hp hg s hlt
  · -- Only the run has a guard that refuses jumps.
    rw [hrun, hrefused]
    exact .inr ⟨s.pc, s.pc, target, rfl⟩
  · rw [stepFrom_succ, hstep, hnone] at hcomparable ⊢
    rw [hrun, hsome]
    cases result with
    | error fault => exact .inl ⟨rfl, rfl⟩
    | ok flow =>
      cases flow with
      | halt => exact .inl ⟨rfl, rfl⟩
      | next =>
        by_cases hpc : t.pc < p.size
        · simp only [if_pos hpc] at hcomparable ⊢
          apply hrest t hpc _ more (steps + 1) g' runs events hmore hruns hfits
          obtain hsteps | ⟨hbreakpoints, hsame⟩ := hcomparable
          · exact .inl hsteps
          · exact .inr ⟨hbreakpoints, Nat.succ.inj hsame⟩
        · simp only [if_neg hpc]
          exact .inl ⟨rfl, rfl⟩

/-- **It is enough to keep up from lines that are dispatched.** A run session that has to pause first
takes one more run for it, which may dispatch as many lines as any run. -/
theorem keepsUp_of_line (hp : p.Indexed) (hfresh : (freshGuard p b).Fits p) {left : Nat} {l : Line}
    (hl : p.line? s.pc = some l) (hleft : left + 1 ≤ b.maxSteps.toNat)
    (hrest : ∀ t : State, t.pc < p.size → KeepsUp p b left t) : KeepsUp p b (left + 1) s := by
  intro seen more steps g runs events hmore hruns hg hcomparable
  obtain ⟨more, rfl⟩ := Nat.exists_eq_add_one_of_ne_zero (Nat.ne_zero_of_lt hmore)
  by_cases hpause : l.breakpoint = true ∧ steps ≠ 0
  · -- There is a breakpoint, and so the steps do not use up their number.
    have hmark : s.pc ∈ p.breakpoints := (Program.mem_breakpoints_iff_of_line? hl).2 hpause.1
    have hsteps : ¬ (stepFrom b.maxSteps.toNat (left + 1) seen ⟨some p, s, b⟩).OutOfSteps := by
      obtain hsteps | ⟨hbreakpoints, -⟩ := hcomparable
      · exact hsteps
      · rw [hbreakpoints] at hmark
        exact absurd hmark (by simp)
    obtain ⟨runs, rfl⟩ := Nat.exists_eq_add_one_of_ne_zero (Nat.ne_zero_of_lt hruns)
    obtain ⟨budget, hbudget⟩ := Nat.exists_eq_add_one_of_ne_zero (Nat.ne_zero_of_lt hleft)
    have hfirst : s.Dispatches p 0 := ⟨l, hl, by simp⟩
    have hbudget' : left ≤ budget := by omega
    have hagrees := agrees_of_dispatches hp hrest hfirst hbudget' (Nat.le_of_succ_le_succ hruns) hfresh
      seen (.paused s.pc :: events) (.inl hsteps)
    rw [resume_of_paused hl hpause, State.run, State.wrapped_of_lt (Program.lt_size_of_line? hl)]
    rwa [← hbudget] at hagrees
  · exact agrees_of_dispatches hp hrest ⟨l, hl, hpause⟩ (by omega) (by omega) hg seen events
      hcomparable

end

/-! ## §3 Whole sessions -/

/-- **A run session keeps up with any number of steps** that the budget allows. -/
theorem keepsUp {p : Program} {b : Budget} (hp : p.Indexed) (hfresh : (freshGuard p b).Fits p)
    {left : Nat} (hleft : left ≤ b.maxSteps.toNat) {s : State} (hs : s.wrapped p = s) :
    KeepsUp p b left s := by
  -- On the steps that are left; a line from which the program goes on leads to another line of it.
  induction left generalizing s with
  | zero => exact keepsUp_zero p b s
  | succ left ih =>
    cases hl : p.line? s.pc with
    | none => exact keepsUp_of_missing hs hl left
    | some l =>
      apply keepsUp_of_line hp hfresh hl hleft
      intro t hpc
      exact ih (Nat.le_of_succ_le hleft) (State.wrapped_of_lt hpc)

/-- A step session begins by wrapping around. -/
theorem stepFrom_wrapped (p : Program) (b : Budget) (s : State) (limit left : Nat)
    (seen : List Event) :
    stepFrom limit (left + 1) seen ⟨some p, s.wrapped p, b⟩ =
      stepFrom limit (left + 1) seen ⟨some p, s, b⟩ := by
  rw [stepFrom_succ, stepFrom_succ, State.step_wrapped]

/-- **Stepping and running agree.** Whatever ends a step session from a machine, if not the number of its
lines, ends a run session that does not stop at breakpoints, and leaves the same machine, unless a jump
is refused to the run. Without breakpoints this holds of the number of lines as well. A run for each
step is enough, and the machine may be any that commands can give; the lines of its program have 64-bit
indices. -/
theorem run_agrees_step {m : Machine} (hm : m.Reachable)
    (hsize : ∀ p, m.program = some p → p.size < JumpTally.greatestIndex) (runs : Nat)
    (hruns : m.budget.maxSteps.toNat < runs)
    (hcomparable : ¬ (step m).OutOfSteps ∨ m.breakpoints = []) :
    (run runs false m).EndsAs (step m) ∨ (run runs false m).JumpRefused := by
  have hbuilt := hm.sound.built
  obtain ⟨hsteps, -⟩ := Budget.pos_of_check hm.sound.budget
  obtain ⟨program, s, b⟩ := m
  obtain ⟨runs, rfl⟩ := Nat.exists_eq_add_one_of_ne_zero (Nat.ne_zero_of_lt hruns)
  obtain ⟨left, hleft⟩ := Nat.exists_eq_add_one_of_ne_zero (Nat.ne_of_gt hsteps)
  change b.maxSteps.toNat = left + 1 at hleft
  cases program with
  | none =>
    -- Neither session finds a program, and the step session does look for one.
    have hstep : step ⟨none, s, b⟩ = ⟨[], .failed .noProgram, ⟨none, s, b⟩⟩ := by
      show stepFrom b.maxSteps.toNat b.maxSteps.toNat [] ⟨none, s, b⟩ = _
      rw [hleft]
      rfl
    rw [hstep]
    exact .inl ⟨rfl, rfl⟩
  | some p =>
    have hfresh : (freshGuard p b).Fits p := JumpGuard.fits_start (hsize p rfl) _
    have hwrapped : step ⟨some p, s, b⟩ =
        stepFrom b.maxSteps.toNat b.maxSteps.toNat [] ⟨some p, s.wrapped p, b⟩ := by
      show stepFrom b.maxSteps.toNat b.maxSteps.toNat [] ⟨some p, s, b⟩ = _
      rw [hleft, stepFrom_wrapped]
    rw [run, runFrom_succ, State.run, hwrapped]
    rw [hwrapped] at hcomparable
    apply keepsUp (hbuilt p rfl).indexed hfresh (Nat.le_refl _) (State.wrapped_wrapped p s)
    · exact Nat.le_refl _
    · exact Nat.le_of_lt_succ hruns
    · exact hfresh
    · obtain hsteps | hbreakpoints := hcomparable
      · exact .inl hsteps
      · exact .inr ⟨hbreakpoints, rfl⟩

/-- A machine with breakpoints that may run as many lines as its program needs, and not one more. -/
def watchingClosely : Machine :=
  ⟨some (watched true), .initial, ⟨8, 2⟩⟩

theorem reachable_watchingClosely : watchingClosely.Reachable := by
  have hnew : Machine.Reachable { Machine.initial with budget := ⟨8, 2⟩ } := .withBudget (b := ⟨8, 2⟩) rfl
  exact .obey (c := .load (watched true)) hnew (.ofLines _)

theorem run_agrees_step_watchingClosely :
    (watchingClosely.Reachable ∧ (watched true).size < JumpTally.greatestIndex) ∧
      (step watchingClosely).ending = .finished ∧
      (run 9 false watchingClosely).events = [.paused 1, .paused 1, .paused 1, .paused 3] ∧
      (run 9 false watchingClosely).EndsAs (step watchingClosely) := by
  have hstep : (step watchingClosely).ending = .finished := rfl
  have hrun : (run 9 false watchingClosely).ending = .finished := rfl
  have hsteps : ¬ (step watchingClosely).OutOfSteps := by
    intro ⟨limit, hlimit⟩
    exact absurd (hstep.symm.trans hlimit) (by simp)
  have hsize : ∀ p, watchingClosely.program = some p → p.size < JumpTally.greatestIndex := by
    intro p hp
    obtain rfl := Option.some.inj hp
    decide
  refine ⟨⟨reachable_watchingClosely, by decide⟩, hstep, rfl, ?_⟩
  obtain hends | ⟨line, source, target, hrefused⟩ :=
    run_agrees_step reachable_watchingClosely hsize 9 (by decide) (.inl hsteps)
  · exact hends
  · exact absurd (hrun.symm.trans hrefused) (by simp)

end Dlx.Session
