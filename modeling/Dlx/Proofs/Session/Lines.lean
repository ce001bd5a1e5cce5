import Dlx.Proofs.Session.Stepping

/-!
# How many lines a session runs

The budget of a machine is that of one run. A session that does not stop at breakpoints takes one run more
than there are pauses, and each has the whole budget to itself, so what bounds the lines of the session is
the budget together with the number of its pauses.

- **§1** as many steps do what a run does that has no error
- **§2** the runs of a session (`starts`), their lines together (`lineCount`), and sessions that come to
  their end (`Finishes`)
- **§3** the bound, and a session that exceeds the budget of one run
-/

namespace Dlx

/-! ## §1 One run -/

/-- All steps have gone on to a next line, but for the last one if the run has completed: that one has
halted. -/
def MatchesStop (answers : List (Except MachineError Tick)) : Stop → Prop
  | .completed _ => ∃ line, SteppedUpTo (.ok (.halted line)) answers
  | .paused _ => AllStepped answers

theorem MatchesStop.cons {answers : List (Except MachineError Tick)} {how : Stop}
    (h : MatchesStop answers how) (line : Nat) : MatchesStop (.ok (.stepped line) :: answers) how := by
  cases how with
  | completed count =>
    obtain ⟨last, hlast⟩ := h
    exact ⟨last, hlast.cons line⟩
  | paused => exact AllStepped.cons h line

namespace State

/-- **A run that has no error does as many steps as it has lines.** -/
theorem Runs.stepMany_log {p : Program} (hp : p.Indexed) (b : Budget) {limit left steps : Nat}
    {guard : Option JumpGuard} {s t : State} {stop : Except MachineError Stop}
    (h : Runs p limit left steps guard s stop t) {how : Stop} (hstop : stop = .ok how) {g : JumpGuard}
    (hguard : guard = some g) (hg : g.Fits p) (hs : s.wrapped p = s) :
    ((⟨some p, s, b⟩ : Machine).stepMany (s.log p left steps guard).length).2 = ⟨some p, t, b⟩ ∧
      MatchesStop ((⟨some p, s, b⟩ : Machine).stepMany (s.log p left steps guard).length).1 how := by
  -- On the run; its guard refuses no jump, and so every line is a step.
  induction h generalizing g with
  | exhausted | missing | faulted | ranOut => exact absurd hstop (by simp)
  | paused hl hbreakpoint hsteps =>
    obtain rfl := Except.ok.inj hstop
    rw [log_of_not_dispatches (not_dispatches_of_paused hl hbreakpoint hsteps)]
    exact ⟨rfl, allStepped_nil⟩
  | @halted left steps guard g' s t hdispatches he =>
    subst hguard
    obtain rfl := Except.ok.inj hstop
    rw [log_of_ended hdispatches (Visit.not_continues_of_halt he)]
    obtain ⟨l, hl, -⟩ := hdispatches
    obtain ⟨hnone, -⟩ := dispatch_none_of_ok hp hg (Program.lt_size_of_line? hl) he
    have hstep : s.step p = (.ok (.halted s.pc), t.goto 0) := by
      rw [step_of_line hs hl, hnone]
    rw [List.length_singleton, Machine.stepMany_one hstep b]
    exact ⟨rfl, s.pc, steppedUpTo_singleton _⟩
  | @advanced left steps guard g' s t u stop hdispatches he hpc _ ih =>
    subst hguard
    rw [log_of_advanced hdispatches he hpc, List.length_cons]
    obtain ⟨l, hl, -⟩ := hdispatches
    obtain ⟨hnone, g'', hfits, rfl⟩ := dispatch_none_of_ok hp hg (Program.lt_size_of_line? hl) he
    have hstep : s.step p = (.ok (.stepped s.pc), t) := by
      rw [step_of_line hs hl, hnone]
      exact if_pos hpc
    obtain ⟨hmachine, hmatch⟩ := ih hstop rfl hfits (wrapped_of_lt hpc)
    rw [Machine.stepMany_succ, hstep]
    exact ⟨hmachine, hmatch.cons s.pc⟩

end State

namespace Machine

/-- **A run of a machine that has no error does as many steps as it has lines.** -/
theorem stepMany_log {m n : Machine} {p : Program} (hprogram : m.program = some p) (hp : p.Indexed)
    (hsize : p.size < JumpTally.greatestIndex) {how : Stop} (h : m.perform run = (.ok how, n)) :
    (m.stepMany m.log.length).2 = n ∧ MatchesStop (m.stepMany m.log.length).1 how := by
  obtain ⟨program, s, b⟩ := m
  obtain rfl : program = some p := hprogram
  rw [perform_run] at h
  obtain ⟨hstop, rfl⟩ := Prod.mk.inj h
  have hruns := State.runs_runFrom p b.maxSteps.toNat b.maxSteps.toNat 0
    (some (.start p.size b.maxJumps.toNat)) (s.wrapped p)
  have hsteps := hruns.stepMany_log hp b hstop rfl (JumpGuard.fits_start hsize _)
    (State.wrapped_wrapped p s)
  -- The first step wraps around as the run does.
  have hpos : 0 < (⟨some p, s, b⟩ : Machine).log.length := by
    change (s.run p b).1 = _ at hstop
    rw [State.run] at hstop
    rw [hstop] at hruns
    exact hruns.length_log_pos
  change ((⟨some p, s.wrapped p, b⟩ : Machine).stepMany (⟨some p, s, b⟩ : Machine).log.length).2 = _ ∧
    MatchesStop ((⟨some p, s.wrapped p, b⟩ : Machine).stepMany
      (⟨some p, s, b⟩ : Machine).log.length).1 how at hsteps
  obtain ⟨k, hk⟩ := Nat.exists_eq_add_one_of_ne_zero (Nat.ne_zero_of_lt hpos)
  rw [hk, stepMany_succ, State.step_wrapped, ← stepMany_succ, ← hk] at hsteps
  exact hsteps

end Machine

namespace Session

/-! ## §2 The runs of a session -/

/-- The machines from which the runs of a session start that does not stop at breakpoints. -/
def starts : Nat → Machine → List Machine
  | 0, _ => []
  | runs + 1, m =>
    m :: match m.perform Machine.run with
      | (.ok (.paused _), n) => starts runs n
      | _ => []

/-- The number of lines that all runs of a session dispatch. -/
def lineCount (runs : Nat) (m : Machine) : Nat :=
  ((starts runs m).flatMap Machine.log).length

section

variable {runs : Nat} {events : List Event} {m n : Machine}

theorem starts_of_paused {line : Nat} (h : m.perform Machine.run = (.ok (.paused line), n))
    (runs : Nat) : starts (runs + 1) m = m :: starts runs n := by
  rw [starts, h]

theorem starts_of_completed {count : Nat} (h : m.perform Machine.run = (.ok (.completed count), n))
    (runs : Nat) : starts (runs + 1) m = [m] := by
  rw [starts, h]

theorem lineCount_of_paused {line : Nat} (h : m.perform Machine.run = (.ok (.paused line), n))
    (runs : Nat) : lineCount (runs + 1) m = m.log.length + lineCount runs n := by
  rw [lineCount, starts_of_paused h, List.flatMap_cons, List.length_append]
  rfl

theorem lineCount_of_completed {count : Nat} (h : m.perform Machine.run = (.ok (.completed count), n))
    (runs : Nat) : lineCount (runs + 1) m = m.log.length := by
  rw [lineCount, starts_of_completed h, List.flatMap_singleton]

/-- `Finishes runs events m t`: a session from machine `m` that does not stop at breakpoints comes to its
end, with transcript `t` behind the events that are given latest first. -/
inductive Finishes : Nat → List Event → Machine → Transcript → Prop where
  | completed {runs : Nat} {events : List Event} {m n : Machine} {count : Nat} :
      m.perform Machine.run = (.ok (.completed count), n) →
      Finishes (runs + 1) events m ⟨events.reverse, .finished, n⟩
  | resumed {runs : Nat} {events : List Event} {m n : Machine} {line : Nat} {t : Transcript} :
      m.perform Machine.run = (.ok (.paused line), n) →
      Finishes runs (.paused line :: events) n t → Finishes (runs + 1) events m t

theorem finishes_runFrom (h : (runFrom false runs events m).ending = .finished) :
    Finishes runs events m (runFrom false runs events m) := by
  -- On the runs that may be taken.
  induction runs generalizing events m with
  | zero => exact absurd h (by simp [runFrom])
  | succ runs ih =>
    rw [runFrom] at h ⊢
    rcases hrun : m.perform Machine.run with ⟨e | stop, n⟩
    · rw [hrun] at h
      exact absurd h (by simp)
    · rw [hrun] at h
      cases stop with
      | completed count => exact .completed hrun
      | paused line => exact .resumed hrun (ih h)

variable {t : Transcript}

/-- There is one run more than there are pauses. -/
theorem Finishes.length_starts (h : Finishes runs events m t) :
    t.events.length + 1 = events.length + (starts runs m).length := by
  induction h with
  | completed hrun =>
    rw [starts_of_completed hrun, List.length_reverse]
    rfl
  | resumed hrun _ ih =>
    rw [ih, starts_of_paused hrun, List.length_cons, List.length_cons]
    omega

/-- All runs have the same budget. -/
theorem budget_of_mem_starts (h : n ∈ starts runs m) : n.budget = m.budget := by
  induction runs generalizing m with
  | zero => exact absurd h (by simp [starts])
  | succ runs ih =>
    rw [starts] at h
    obtain rfl | hrest := List.mem_cons.1 h
    · rfl
    · have hbudget := m.budget_run
      rcases hrun : m.perform Machine.run with ⟨e | stop, k⟩
      · simp [hrun] at hrest
      · rw [hrun] at hrest hbudget
        cases stop with
        | completed => exact absurd hrest (by simp)
        | paused => exact (ih hrest).trans hbudget

/-- Every run but the last one has paused, and could have run another line. -/
theorem Finishes.lineCount_add_length_le (h : Finishes runs events m t) :
    lineCount runs m + (starts runs m).length ≤
      (starts runs m).length * m.budget.maxSteps.toNat + 1 := by
  induction h with
  | @completed runs events m n count hrun =>
    -- The last run may use up its budget.
    have hlast := m.length_log_le
    rw [lineCount_of_completed hrun, starts_of_completed hrun, List.length_singleton]
    omega
  | @resumed runs events m n line t hrun _ ih =>
    have hpaused := Machine.length_log_lt (congrArg Prod.fst hrun)
    have hbudget := m.budget_run
    rw [hrun] at hbudget
    rw [hbudget] at ih
    rw [lineCount_of_paused hrun, starts_of_paused hrun, List.length_cons, Nat.succ_mul]
    omega

/-- **The lines of a session are steps.** As many steps as a session has lines halt the program, and leave
the machine that the session leaves. -/
theorem Finishes.stepMany_lineCount (h : Finishes runs events m t) {p : Program}
    (hprogram : m.program = some p) (hp : p.Indexed) (hsize : p.size < JumpTally.greatestIndex) :
    (m.stepMany (lineCount runs m)).2 = t.machine ∧
      ∃ line, SteppedUpTo (.ok (.halted line)) (m.stepMany (lineCount runs m)).1 := by
  induction h with
  | completed hrun =>
    rw [lineCount_of_completed hrun]
    exact Machine.stepMany_log hprogram hp hsize hrun
  | @resumed runs events m n line t hrun _ ih =>
    -- The steps of a run that pauses are in front of those of the rest.
    obtain ⟨hleave, hstepped⟩ := Machine.stepMany_log hprogram hp hsize hrun
    have hkept := m.program_run
    rw [hrun, hprogram] at hkept
    obtain ⟨hmachine, last, hhalted⟩ := ih hkept
    rw [lineCount_of_paused hrun, Machine.stepMany_add, hleave]
    exact ⟨hmachine, last, hhalted.append hstepped⟩

end

/-! ## §3 The bound -/

/-- **What bounds the lines of a session.** If a session that does not stop at breakpoints comes to its
end, then it has taken one run more than it has paused. Each of these runs has dispatched no more lines
than the budget allows, wherever breakpoints are, and all of them together have dispatched no more than
that for the last run, and one line less for each pause. Without a pause the budget bounds the whole
session. That many lines it is from the start of the session to the end of the program: as many steps halt
the program and leave the machine that the session leaves, if the program has been built and its lines have
64-bit indices. -/
theorem lineCount_le_of_finished {m : Machine} {runs : Nat}
    (h : (run runs false m).ending = .finished) :
    (starts runs m).length = (run runs false m).events.length + 1 ∧
    (∀ n ∈ starts runs m, n.log.length ≤ m.budget.maxSteps.toNat) ∧
    lineCount runs m ≤
      m.budget.maxSteps.toNat + (run runs false m).events.length * (m.budget.maxSteps.toNat - 1) ∧
    ((run runs false m).events = [] → lineCount runs m ≤ m.budget.maxSteps.toNat) ∧
    ∀ p, m.program = some p → p.Built → p.size < JumpTally.greatestIndex →
      (m.stepMany (lineCount runs m)).2 = (run runs false m).machine ∧
        ∃ line, SteppedUpTo (.ok (.halted line)) (m.stepMany (lineCount runs m)).1 := by
  have hfinishes : Finishes runs [] m (run runs false m) := finishes_runFrom h
  have hlength : (starts runs m).length = (run runs false m).events.length + 1 := by
    rw [hfinishes.length_starts, List.length_nil, Nat.zero_add]
  have hbound : lineCount runs m ≤
      m.budget.maxSteps.toNat +
        (run runs false m).events.length * (m.budget.maxSteps.toNat - 1) := by
    have hlines := hfinishes.lineCount_add_length_le
    rw [hlength, Nat.succ_mul] at hlines
    rw [Nat.mul_sub_one]
    omega
  refine ⟨hlength, ?_, hbound, ?_, ?_⟩
  · intro n hn
    rw [← budget_of_mem_starts hn]
    exact n.length_log_le
  · intro hevents
    rw [hevents, List.length_nil, Nat.zero_mul] at hbound
    exact hbound
  · intro p hprogram hbuilt hsize
    exact hfinishes.stepMany_lineCount hprogram hbuilt.indexed hsize

/-- A machine with breakpoints that may run fewer lines at a time than its program needs. -/
def watchingTightly : Machine :=
  ⟨some (watched true), .initial, ⟨3, 2⟩⟩

theorem reachable_watchingTightly : watchingTightly.Reachable := by
  have hnew : Machine.Reachable { Machine.initial with budget := ⟨3, 2⟩ } := .withBudget (b := ⟨3, 2⟩) rfl
  exact .obey (c := .load (watched true)) hnew (.ofLines _)

theorem lineCount_le_of_finished_watchingTightly :
    (run 5 false watchingTightly).ending = .finished ∧
      (run 5 false watchingTightly).events = [.paused 1, .paused 1, .paused 1, .paused 3] ∧
      (starts 5 watchingTightly).length = 5 ∧
      lineCount 5 watchingTightly ≤ 3 + 4 * 2 ∧
      ∃ line, SteppedUpTo (.ok (.halted line))
        (watchingTightly.stepMany (lineCount 5 watchingTightly)).1 := by
  have hfinished : (run 5 false watchingTightly).ending = .finished := rfl
  obtain ⟨hlength, -, hbound, -, hsteps⟩ := lineCount_le_of_finished hfinished
  exact ⟨hfinished, rfl, hlength, hbound, (hsteps (watched true) rfl (.ofLines _) (by decide)).2⟩

/-- **The budget of a machine does not bound its sessions.** It allows three lines to this one, and the
session runs eight of them and comes to its end. -/
theorem not_lineCount_le_watchingTightly :
    watchingTightly.Reachable ∧ watchingTightly.budget.maxSteps = 3 ∧
      (run 5 false watchingTightly).ending = .finished ∧ lineCount 5 watchingTightly = 8 ∧
      ¬ ∀ (m : Machine) (runs : Nat), m.Reachable → (run runs false m).ending = .finished →
        lineCount runs m ≤ m.budget.maxSteps.toNat := by
  have hfinished : (run 5 false watchingTightly).ending = .finished := rfl
  have hcount : lineCount 5 watchingTightly = 8 := rfl
  refine ⟨reachable_watchingTightly, rfl, hfinished, hcount, fun h => ?_⟩
  have hle := h watchingTightly 5 reachable_watchingTightly hfinished
  rw [hcount] at hle
  exact absurd hle (by decide)

end Session

end Dlx
