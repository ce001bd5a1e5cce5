import Dlx.Proofs.Machine.Run

/-!
# Runs and steps

Running a program is stepping through it: whatever ends a run, the machine that the run leaves is the one
that a number of single steps leaves, and the answers of these steps show how the run ended.

- **§1** a guard over jumps changes nothing about a line, unless it refuses the jump of that line
- **§2** stepping many times
- **§3** how the answers of steps match the end of a run (`InStep`)
- **§4** runs are in step with steps
-/

namespace Dlx

/-! ## §1 The guard -/

/-- **The guard either refuses the jump of a line or changes nothing about it.** -/
theorem State.dispatch_some {p : Program} (hp : p.Indexed) {g : JumpGuard} (hg : g.Fits p) (s : State)
    {line : Nat} (hline : line < p.size) :
    (∃ target, g.Refuses ⟨line, target⟩ ∧
      s.dispatch p line (some g) =
        ⟨.error (.tooManyJumps line target), s.goto line, some (g.counted ⟨line, target⟩)⟩) ∨
    ∃ result t g', g'.Fits p ∧ s.dispatch p line (some g) = ⟨result, t, some g'⟩ ∧
      s.dispatch p line none = ⟨result, t, none⟩ := by
  rw [dispatch_eq, dispatch_eq]
  cases heffect : p.effectAt s line with
  | error fault => exact .inr ⟨_, _, g, hg, rfl, rfl⟩
  | ok e =>
    cases e with
    | write rd w => exact .inr ⟨_, _, g, hg, rfl, rfl⟩
    | store target a w => exact .inr ⟨_, _, g, hg, rfl, rfl⟩
    | pass => exact .inr ⟨_, _, g, hg, rfl, rfl⟩
    | halt => exact .inr ⟨_, _, g, hg, rfl, rfl⟩
    | jump target linking =>
      -- The only effect at which the guard looks.
      have htarget : target ≤ p.size := Program.target_le_of_effectAt hp heffect
      have hcount := countJump_some (j := ⟨line, target⟩) hg hline htarget
      by_cases hrefuses : g.Refuses ⟨line, target⟩
      · refine .inl ⟨target, hrefuses, ?_⟩
        simp only [hcount, if_pos hrefuses]
      · refine .inr ⟨.ok .next, s.jump line target linking, _, hg.counted ⟨line, target⟩, ?_, rfl⟩
        simp only [hcount, if_neg hrefuses]

/-- A line that has no fault under a guard does the same without one. -/
theorem State.dispatch_none_of_ok {p : Program} (hp : p.Indexed) {g : JumpGuard} (hg : g.Fits p)
    {s t : State} {line : Nat} (hline : line < p.size) {flow : Flow} {guard : Option JumpGuard}
    (h : s.dispatch p line (some g) = ⟨.ok flow, t, guard⟩) :
    s.dispatch p line none = ⟨.ok flow, t, none⟩ ∧ ∃ g', g'.Fits p ∧ guard = some g' := by
  -- A refusal would have been a fault.
  rcases dispatch_some hp hg s hline with ⟨target, -, hrefused⟩ | ⟨result, u, g', hfits, hsome, hnone⟩
  · exact absurd (Execution.mk.inj (h.symm.trans hrefused)).1 (by simp)
  · obtain ⟨rfl, rfl, rfl⟩ := Execution.mk.inj (h.symm.trans hsome)
    exact ⟨hnone, g', hfits, rfl⟩

/-- Without a guard a line has the fault of its effect, and no other; no jump is refused. -/
theorem State.dispatch_none_eq_error_iff (p : Program) (s : State) (line : Nat) (fault : Fault) :
    (s.dispatch p line none).result = .error fault ↔ p.effectAt s line = .error fault := by
  rw [dispatch_eq]
  cases p.effectAt s line with
  | error other => simp
  | ok e => cases e <;> simp [countJump]

/-- So the faults of a line without a guard tell the truth. -/
theorem State.trueOf_of_dispatch_none {p : Program} {s : State} {line : Nat} {fault : Fault}
    (h : (s.dispatch p line none).result = .error fault) : fault.TrueOf p s :=
  Program.trueOf_of_effectAt ((dispatch_none_eq_error_iff p s line fault).1 h)

/-! ## §2 Stepping many times -/

namespace Machine

/-- The answers of a number of steps, and the machine that they leave. A step that fails does not keep
the next one from being taken. -/
def stepMany : Nat → Machine → List (Except MachineError Tick) × Machine
  | 0, m => ([], m)
  | n + 1, m =>
    let (answer, m') := m.perform step
    let (answers, m'') := stepMany n m'
    (answer :: answers, m'')

theorem stepMany_succ (n : Nat) (p : Program) (s : State) (b : Budget) :
    (⟨some p, s, b⟩ : Machine).stepMany (n + 1) =
      ((s.step p).1 :: ((⟨some p, (s.step p).2, b⟩ : Machine).stepMany n).1,
        ((⟨some p, (s.step p).2, b⟩ : Machine).stepMany n).2) := by
  rw [stepMany, perform_step]

/-- A single step that answers. -/
theorem stepMany_one {p : Program} {s t : State} {answer : Except MachineError Tick}
    (h : s.step p = (answer, t)) (b : Budget) :
    (⟨some p, s, b⟩ : Machine).stepMany 1 = ([answer], ⟨some p, t, b⟩) := by
  rw [stepMany_succ, h]
  rfl

theorem length_stepMany (n : Nat) (m : Machine) : (m.stepMany n).1.length = n := by
  induction n generalizing m with
  | zero => rfl
  | succ n ih => simp [stepMany, ih]

/-- Steps are taken one after the other. -/
theorem stepMany_add (a c : Nat) (m : Machine) :
    m.stepMany (a + c) =
      ((m.stepMany a).1 ++ ((m.stepMany a).2.stepMany c).1, ((m.stepMany a).2.stepMany c).2) := by
  induction a generalizing m with
  | zero =>
    rw [Nat.zero_add]
    rfl
  | succ a ih =>
    rw [Nat.add_right_comm]
    simp only [stepMany, ih, List.cons_append]

end Machine

/-! ## §3 Matching ends -/

/-- All steps have gone on to a next line. -/
def AllStepped (answers : List (Except MachineError Tick)) : Prop :=
  ∀ answer ∈ answers, ∃ line, answer = .ok (.stepped line)

/-- All steps but the last have gone on to a next line. -/
def SteppedUpTo (last : Except MachineError Tick) (answers : List (Except MachineError Tick)) : Prop :=
  ∃ init, AllStepped init ∧ answers = init ++ [last]

/-- How the answers of `n` steps match the end of a run that has dispatched `steps` lines before, may
dispatch `left` more, and leaves `pc` as the next line. -/
def InStep (left steps n pc : Nat) (answers : List (Except MachineError Tick)) :
    Except MachineError Stop → Prop
  | .ok (.completed total) => total = steps + n ∧ ∃ line, SteppedUpTo (.ok (.halted line)) answers
  | .ok (.paused line) => AllStepped answers ∧ pc = line
  | .error (.tooManySteps _) => n = left ∧ AllStepped answers
  | .error .haltNotFound => SteppedUpTo (.error .haltNotFound) answers
  | .error (.fault _ (.tooManyJumps source _)) => AllStepped answers ∧ pc = source
  | .error (.fault line fault) => SteppedUpTo (.error (.fault line fault)) answers
  | .error _ => False

theorem allStepped_nil : AllStepped [] := by
  intro answer hanswer
  exact absurd hanswer (by simp)

theorem AllStepped.cons {answers : List (Except MachineError Tick)} (h : AllStepped answers)
    (line : Nat) : AllStepped (.ok (.stepped line) :: answers) := by
  intro answer hanswer
  rcases List.mem_cons.1 hanswer with rfl | hmem
  · exact ⟨line, rfl⟩
  · exact h answer hmem

theorem steppedUpTo_singleton (last : Except MachineError Tick) : SteppedUpTo last [last] :=
  ⟨[], allStepped_nil, rfl⟩

theorem SteppedUpTo.cons {last : Except MachineError Tick} {answers : List (Except MachineError Tick)}
    (h : SteppedUpTo last answers) (line : Nat) :
    SteppedUpTo last (.ok (.stepped line) :: answers) := by
  obtain ⟨init, hinit, rfl⟩ := h
  exact ⟨.ok (.stepped line) :: init, hinit.cons line, rfl⟩

theorem SteppedUpTo.append {last : Except MachineError Tick}
    {answers others : List (Except MachineError Tick)} (h : SteppedUpTo last answers)
    (hothers : AllStepped others) : SteppedUpTo last (others ++ answers) := by
  obtain ⟨init, hinit, rfl⟩ := h
  refine ⟨others ++ init, ?_, (List.append_assoc ..).symm⟩
  intro answer hanswer
  rcases List.mem_append.1 hanswer with hfirst | hrest
  · exact hothers answer hfirst
  · exact hinit answer hrest

/-- A run that ends with a fault is matched by steps that end with the same fault, unless a jump has been
refused, which does not happen to steps. -/
theorem inStep_fault {left steps n pc line : Nat} {answers : List (Except MachineError Tick)}
    {fault : Fault} (hfault : ∀ source target, fault ≠ .tooManyJumps source target)
    (h : SteppedUpTo (.error (.fault line fault)) answers) :
    InStep left steps n pc answers (.error (.fault line fault)) := by
  cases fault with
  | tooManyJumps source target => exact absurd rfl (hfault source target)
  | noValue | invalidAddress | labelNotFound | jumpOutOfRange => exact h

/-- One more step in front is one more line of the run. -/
theorem InStep.cons {left steps n pc : Nat} {answers : List (Except MachineError Tick)}
    {stop : Except MachineError Stop} (h : InStep left (steps + 1) n pc answers stop) (line : Nat) :
    InStep (left + 1) steps (n + 1) pc (.ok (.stepped line) :: answers) stop := by
  cases stop with
  | ok stop =>
    cases stop with
    | completed total =>
      obtain ⟨htotal, last, hlast⟩ := h
      exact ⟨by omega, last, hlast.cons line⟩
    | paused line' => exact ⟨h.1.cons line, h.2⟩
  | error e =>
    cases e with
    | fault line' fault =>
      cases fault with
      | tooManyJumps source target => exact ⟨h.1.cons line, h.2⟩
      | noValue | invalidAddress | labelNotFound | jumpOutOfRange => exact SteppedUpTo.cons h line
    | haltNotFound => exact SteppedUpTo.cons h line
    | tooManySteps => exact ⟨congrArg (· + 1) h.1, h.2.cons line⟩
    | _ => exact h

/-! ## §4 In step -/

/-- **A run is in step with steps.** No step at all is taken only if the run could not dispatch its
first line: it had no lines left, or it was under way already, or a jump was refused. -/
theorem State.Runs.inStep {p : Program} (hp : p.Indexed) (b : Budget) {limit left steps : Nat}
    {guard : Option JumpGuard} {s t : State} {stop : Except MachineError Stop}
    (h : Runs p limit left steps guard s stop t) {g : JumpGuard} (hguard : guard = some g)
    (hg : g.Fits p) (hs : s.wrapped p = s) :
    ∃ n, (n = 0 → left = 0 ∨ steps ≠ 0 ∨ ∃ j, g.Refuses j) ∧
      ((⟨some p, s, b⟩ : Machine).stepMany n).2 = ⟨some p, t, b⟩ ∧
      InStep left steps n t.pc ((⟨some p, s, b⟩ : Machine).stepMany n).1 stop := by
  -- On the run; a line after which it goes on is a step in front of the steps for the rest.
  induction h generalizing g with
  | exhausted => exact ⟨0, fun _ => .inl rfl, rfl, rfl, allStepped_nil⟩
  | @missing left steps guard s hl =>
    have hone := Machine.stepMany_one (step_of_missing hs hl) b
    refine ⟨1, by simp, ?_, ?_⟩
    · rw [hone, goto_zero_of_missing hs hl]
    · rw [hone]
      exact steppedUpTo_singleton _
  | paused hl hbreakpoint hsteps => exact ⟨0, fun _ => .inr (.inl hsteps), rfl, allStepped_nil, rfl⟩
  | @faulted left steps guard g' s t fault hdispatches he =>
    subst hguard
    obtain ⟨l, hl, -⟩ := hdispatches
    have hlt : s.pc < p.size := Program.lt_size_of_line? hl
    rcases dispatch_some hp hg s hlt with ⟨target, hrefuses, hrefused⟩ | ⟨result, u, _, _, hsome, hnone⟩
    · -- The refused jump leaves the line next, and there is no step for it.
      obtain ⟨hfault, rfl, -⟩ := Execution.mk.inj (he.symm.trans hrefused)
      obtain rfl := Except.error.inj hfault
      exact ⟨0, fun _ => .inr (.inr ⟨_, hrefuses⟩), rfl, allStepped_nil, rfl⟩
    · -- Any other fault is that of a step, which has no guard and refuses no jump.
      obtain ⟨rfl, rfl, -⟩ := Execution.mk.inj (he.symm.trans hsome)
      have htrue : fault.TrueOf p s := trueOf_of_dispatch_none (congrArg Execution.result hnone)
      have hfault : ∀ source target, fault ≠ .tooManyJumps source target := by
        rintro source target rfl
        exact htrue
      have hstep : s.step p = (.error (.fault s.pc fault), t) := by
        rw [step_of_line hs hl, hnone]
      have hone := Machine.stepMany_one hstep b
      refine ⟨1, by simp, ?_, ?_⟩
      · rw [hone]
      · rw [hone]
        exact inStep_fault hfault (steppedUpTo_singleton _)
  | @halted left steps guard g' s t hdispatches he =>
    subst hguard
    obtain ⟨l, hl, -⟩ := hdispatches
    obtain ⟨hnone, -⟩ := dispatch_none_of_ok hp hg (Program.lt_size_of_line? hl) he
    have hstep : s.step p = (.ok (.halted s.pc), t.goto 0) := by
      rw [step_of_line hs hl, hnone]
    have hone := Machine.stepMany_one hstep b
    refine ⟨1, by simp, ?_, ?_⟩
    · rw [hone]
    · rw [hone]
      exact ⟨rfl, s.pc, steppedUpTo_singleton _⟩
  | @ranOut left steps guard g' s t hdispatches he hpc =>
    subst hguard
    obtain ⟨l, hl, -⟩ := hdispatches
    obtain ⟨hnone, -⟩ := dispatch_none_of_ok hp hg (Program.lt_size_of_line? hl) he
    have hstep : s.step p = (.error .haltNotFound, t.goto 0) := by
      rw [step_of_line hs hl, hnone]
      exact if_neg hpc
    have hone := Machine.stepMany_one hstep b
    refine ⟨1, by simp, ?_, ?_⟩
    · rw [hone]
    · rw [hone]
      exact steppedUpTo_singleton _
  | @advanced left steps guard g' s t u stop hdispatches he hpc _ ih =>
    subst hguard
    obtain ⟨l, hl, -⟩ := hdispatches
    obtain ⟨hnone, g'', hfits, rfl⟩ := dispatch_none_of_ok hp hg (Program.lt_size_of_line? hl) he
    have hstep : s.step p = (.ok (.stepped s.pc), t) := by
      rw [step_of_line hs hl, hnone]
      exact if_pos hpc
    -- The next line is inside the program, so nothing wraps around there.
    obtain ⟨n, -, hmachine, hmatch⟩ := ih rfl hfits (wrapped_of_lt hpc)
    refine ⟨n + 1, by simp, ?_, ?_⟩
    · rw [Machine.stepMany_succ, hstep]
      exact hmachine
    · rw [Machine.stepMany_succ, hstep]
      exact hmatch.cons s.pc

/-- At the start of a run no jump is refused. -/
theorem JumpGuard.not_refuses_start {limit : Nat} (hlimit : 0 < limit) (length : Nat) (j : Jump) :
    ¬ (start length limit).Refuses j := by
  intro hrefuses
  -- The tally is empty, and one jump is within any limit that is not zero.
  have hover : limit < min ((JumpTally.start length).count j + 1) JumpTally.greatestCount := hrefuses
  rw [JumpTally.count_start] at hover
  omega

/-- **Runs and steps.** Whatever ends a run, there is a number of steps that leaves the same machine, and
the answers of these steps match the end of the run: all steps go on to a next line, up to the one
that halts, fails or runs out of lines if the run ends so; a run that completes counts these steps; a
run that pauses, uses up its budget or is refused a jump stands where the steps stand. Any state will
do to start from; the program has been built, its lines have 64-bit indices, and the budget can be
spent. -/
theorem Machine.run_inStep (m : Machine) (p : Program) (hprogram : m.program = some p)
    (hbuilt : p.Built) (hsize : p.size < JumpTally.greatestIndex)
    (hbudget : m.budget.check = .ok ()) :
    ∃ n, 0 < n ∧ (m.stepMany n).2 = (m.perform run).2 ∧ (m.stepMany n).1.length = n ∧
      InStep m.budget.maxSteps.toNat 0 n (m.perform run).2.state.pc (m.stepMany n).1
        (m.perform run).1 := by
  obtain ⟨program, s, b⟩ := m
  obtain rfl : program = some p := hprogram
  obtain ⟨hsteps, hjumps⟩ := Budget.pos_of_check hbudget
  have hruns := State.runs_runFrom p b.maxSteps.toNat b.maxSteps.toNat 0
    (some (.start p.size b.maxJumps.toNat)) (s.wrapped p)
  obtain ⟨n, hzero, hmachine, hmatch⟩ :=
    hruns.inStep hbuilt.indexed b rfl (JumpGuard.fits_start hsize _) (State.wrapped_wrapped p s)
  cases n with
  | zero =>
    -- Nothing has been spent at the start, so at least one step is taken.
    obtain h | h | ⟨j, hrefuses⟩ := hzero rfl
    · exact absurd h (Nat.ne_of_gt hsteps)
    · exact absurd rfl h
    · exact absurd hrefuses (JumpGuard.not_refuses_start hjumps p.size j)
  | succ n =>
    -- The first step wraps around as the run does.
    have hwrapped : (⟨some p, s.wrapped p, b⟩ : Machine).stepMany (n + 1) =
        (⟨some p, s, b⟩ : Machine).stepMany (n + 1) := by
      rw [stepMany_succ, stepMany_succ, State.step_wrapped]
    rw [hwrapped] at hmachine hmatch
    rw [perform_run]
    exact ⟨n + 1, Nat.succ_pos n, hmachine, length_stepMany _ _, hmatch⟩

/-- A program that counts `R31` down from three to zero. -/
def countdown : Program :=
  .ofLines [
    ⟨none, false, some (.immediate .add .link .zero 3)⟩,
    ⟨some "Loop", false, some (.immediate .sub .link .link 1)⟩,
    ⟨none, false, some (.branch .notZero .link "Loop")⟩,
    ⟨none, false, some .halt⟩]

theorem run_inStep_countdown :
    (countdown.Built ∧ countdown.size < JumpTally.greatestIndex ∧
      Budget.standard.check = .ok ()) ∧
    (((⟨some countdown, .initial, .standard⟩ : Machine).perform Machine.run).1 =
      .ok (.completed 8)) ∧
    ∃ n, 0 < n ∧
      ((⟨some countdown, .initial, .standard⟩ : Machine).stepMany n).2 =
        ((⟨some countdown, .initial, .standard⟩ : Machine).perform Machine.run).2 ∧
      ((⟨some countdown, .initial, .standard⟩ : Machine).stepMany n).1.length = n ∧
      InStep 10000 0 n
        ((⟨some countdown, .initial, .standard⟩ : Machine).perform Machine.run).2.state.pc
        ((⟨some countdown, .initial, .standard⟩ : Machine).stepMany n).1
        ((⟨some countdown, .initial, .standard⟩ : Machine).perform Machine.run).1 :=
  ⟨⟨.ofLines _, by decide, rfl⟩, rfl,
    Machine.run_inStep ⟨some countdown, .initial, .standard⟩ countdown rfl (.ofLines _) (by decide) rfl⟩

end Dlx
