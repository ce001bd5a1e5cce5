import Dlx.Proofs.Machine.Breakpoints
import Dlx.Proofs.Machine.Invariant
import Dlx.Session

/-!
# Sessions that are resumed

A session that does not stop at breakpoints cuts one long run into many: each pauses where the next one
starts, with its budget to itself. What the machine does is what one run of the same program without
breakpoints does, as long as its budget suffices for that one run, and the pauses are the lines with a
breakpoint that it comes to.

- **§1** what remains of a session when a run ends (`resume`)
- **§2** one line: it is dispatched, after a pause if it has to be (`Follows`)
- **§3** a whole run
- **§4** sessions of machines
-/

namespace Dlx.Session

/-! ## §1 What remains of a session -/

/-- How a session ends when a run ends it. -/
def Ending.ofRun : Except MachineError Stop → Ending
  | .ok _ => .finished
  | .error e => .failed e

/-- The program has come to its end, or to a fault of its own: neither the budget nor a breakpoint has
ended the run. -/
def Conclusive : Except MachineError Stop → Prop
  | .ok (.completed _) => True
  | .error .haltNotFound => True
  | .error (.fault _ fault) => ∀ source target, fault ≠ .tooManyJumps source target
  | _ => False

/-- What remains of a session when a run has ended. -/
def resume (p : Program) (b : Budget) (runs : Nat) (events : List Event) :
    Except MachineError Stop × State → Transcript
  | (.ok (.completed _), t) => ⟨events.reverse, .finished, ⟨some p, t, b⟩⟩
  | (.ok (.paused line), t) => runFrom false runs (.paused line :: events) ⟨some p, t, b⟩
  | (.error e, t) => ⟨events.reverse, .failed e, ⟨some p, t, b⟩⟩

theorem runFrom_succ (p : Program) (b : Budget) (s : State) (runs : Nat) (events : List Event) :
    runFrom false (runs + 1) events ⟨some p, s, b⟩ = resume p b runs events (s.run p b) := by
  rw [runFrom, Machine.perform_run]
  rcases s.run p b with ⟨e | stop, t⟩
  · rfl
  · cases stop <;> rfl

/-- Where a run pauses, the session goes on with a run of its own, which starts at the line that has paused
the other one. -/
theorem resume_of_paused {p : Program} {b : Budget} {s : State} {l : Line} {steps : Nat}
    (hl : p.line? s.pc = some l) (hpause : l.breakpoint = true ∧ steps ≠ 0) (limit more : Nat)
    (guard : Option JumpGuard) (runs : Nat) (events : List Event) :
    resume p b (runs + 1) events (s.runFrom p limit (more + 1) steps guard) =
      resume p b runs (.paused s.pc :: events) (s.run p b) := by
  have hpaused : s.runFrom p limit (more + 1) steps guard = (.ok (.paused s.pc), s) := by
    rw [State.runFrom, hl]
    exact if_pos hpause
  rw [hpaused]
  exact runFrom_succ p b s runs (.paused s.pc :: events)

/-- The lines with a breakpoint among those that a run has come to. -/
def pauses (p : Program) (visits : List Visit) : List Nat :=
  (visits.map Visit.line).filter (· ∈ p.breakpoints)

/-- The pauses of a run that has dispatched so many lines already: the line at which a run starts does
not pause it. -/
def pausesAfter (p : Program) (steps : Nat) (visits : List Visit) : List Nat :=
  pauses p (if steps = 0 then visits.tail else visits)

theorem pausesAfter_nil (p : Program) (steps : Nat) : pausesAfter p steps [] = [] := by
  unfold pausesAfter
  split <;> rfl

/-! ## §2 One line -/

section

variable {p : Program} {b : Budget} {s t : State} {visits : List Visit}
  {stop : Except MachineError Stop}

/-- The guard with which every run of a session starts. -/
def freshGuard (p : Program) (b : Budget) : JumpGuard :=
  .start p.size b.maxJumps.toNat

/-- A session follows a run that comes to some lines and leaves a state, if it may dispatch as many lines
and its guard is at least as lax: it pauses where there are breakpoints, and ends as the run does. -/
def Follows (p : Program) (b : Budget) (left : Nat) (h : JumpGuard) (s : State) (visits : List Visit)
    (stop : Except MachineError Stop) (t : State) : Prop :=
  ∀ (more steps : Nat) (g : JumpGuard) (runs : Nat) (events : List Event), left ≤ more → g.Laxer h →
    (pausesAfter p steps visits).length ≤ runs →
    resume p b runs events (s.runFrom p b.maxSteps.toNat more steps (some g)) =
      ⟨events.reverse ++ (pausesAfter p steps visits).map .paused, .ofRun stop, ⟨some p, t, b⟩⟩

/-- **It is enough to follow a run from lines that are dispatched.** A session that has to pause first
starts a new run there, and that run dispatches the line. -/
theorem follows_of_dispatches {left : Nat} {h : JumpGuard} {guard : Option JumpGuard} {l : Line}
    (hl : p.line? s.pc = some l) (hleft : left + 1 ≤ b.maxSteps.toNat) (hfresh : (freshGuard p b).Laxer h)
    (hdispatch : ∀ (more steps : Nat) (g : JumpGuard) (runs : Nat) (events : List Event), left ≤ more →
      g.Laxer h → s.Dispatches p steps → (pauses p visits).length ≤ runs →
      resume p b runs events (s.runFrom p b.maxSteps.toNat (more + 1) steps (some g)) =
        ⟨events.reverse ++ (pauses p visits).map .paused, .ofRun stop, ⟨some p, t, b⟩⟩) :
    Follows p b (left + 1) h s (⟨s, guard⟩ :: visits) stop t := by
  intro more steps g runs events hmore hlax hruns
  obtain ⟨more, rfl⟩ : ∃ k, more = k + 1 := ⟨more - 1, by omega⟩
  have hmark := Program.mem_breakpoints_iff_of_line? hl
  by_cases hpause : l.breakpoint = true ∧ steps ≠ 0
  · -- The run pauses here, and the next one starts here.
    have hpauses : pausesAfter p steps (⟨s, guard⟩ :: visits) = s.pc :: pauses p visits := by
      rw [pausesAfter, if_neg hpause.2, pauses, List.map_cons]
      exact List.filter_cons_of_pos (decide_eq_true (hmark.2 hpause.1))
    rw [hpauses, List.length_cons] at hruns
    obtain ⟨runs, rfl⟩ : ∃ k, runs = k + 1 := ⟨runs - 1, by omega⟩
    obtain ⟨budget, hbudget⟩ : ∃ k, b.maxSteps.toNat = k + 1 := ⟨b.maxSteps.toNat - 1, by omega⟩
    have hrest := hdispatch budget 0 (freshGuard p b) runs (.paused s.pc :: events) (by omega) hfresh
      ⟨l, hl, by simp⟩ (by omega)
    rw [resume_of_paused hl hpause, hpauses, State.run,
      State.wrapped_of_lt (Program.lt_size_of_line? hl)]
    rw [← hbudget] at hrest
    refine hrest.trans ?_
    rw [List.reverse_cons, List.append_assoc]
    rfl
  · -- The run dispatches the line, so that it is no pause of it.
    have hpauses : pausesAfter p steps (⟨s, guard⟩ :: visits) = pauses p visits := by
      by_cases hsteps : steps = 0
      · rw [pausesAfter, if_pos hsteps, List.tail_cons]
      · have hnot : s.pc ∉ p.breakpoints := fun hmem => hpause ⟨hmark.1 hmem, hsteps⟩
        rw [pausesAfter, if_neg hsteps, pauses, List.map_cons]
        exact List.filter_cons_of_neg fun h => hnot (of_decide_eq_true h)
    rw [hpauses] at hruns ⊢
    exact hdispatch more steps g runs events (by omega) hlax ⟨l, hl, hpause⟩ hruns

/-- The last line of a run, whether it has a fault, halts, or leads past the last line. The session does
with it what the run does. -/
theorem follows_of_last {left : Nat} {h : JumpGuard} {guard g' : Option JumpGuard} {l : Line} {u : State}
    {result : Except Fault Flow} (hl : p.line? s.pc = some l) (hleft : left + 1 ≤ b.maxSteps.toNat)
    (hfresh : (freshGuard p b).Laxer h) (he : s.dispatch p s.pc (some h) = ⟨result, u, g'⟩)
    (hresult : ∀ source target, result ≠ .error (.tooManyJumps source target))
    (hend : ∀ (more steps : Nat) (g : JumpGuard) (guard : Option JumpGuard) (runs : Nat)
      (events : List Event), s.Dispatches p steps → s.dispatch p s.pc (some g) = ⟨result, u, guard⟩ →
      resume p b runs events (s.runFrom p b.maxSteps.toNat (more + 1) steps (some g)) =
        ⟨events.reverse, .ofRun stop, ⟨some p, t, b⟩⟩) :
    Follows p b (left + 1) h s [⟨s, guard⟩] stop t := by
  refine follows_of_dispatches hl hleft hfresh ?_
  intro more steps g runs events _ hlax hdispatches _
  obtain ⟨g'', h', -, -, -, -, he'⟩ := State.dispatch_of_laxer hlax he hresult
  rw [hend more steps g _ runs events hdispatches he']
  simp [pauses]

end

/-! ## §3 A whole run -/

/-- **A session follows a conclusive run** of the program without breakpoints, from any line of it on. -/
theorem follows_of_runs {p q : Program} {b : Budget} (hunmarks : q.Unmarks p) (hq : q.Indexed)
    (hp : p.Indexed) {limit left steps : Nat} {guard : Option JumpGuard} {s t : State}
    {stop : Except MachineError Stop} (hruns : State.Runs q limit left steps guard s stop t)
    (hstop : Conclusive stop) {h : JumpGuard} (hguard : guard = some h)
    (hleft : left ≤ b.maxSteps.toNat) (hfresh : (freshGuard p b).Laxer h) :
    Follows p b left h s (s.log q left steps guard) stop t := by
  have hdispatch := hunmarks.dispatch hq hp
  -- On the run. It dispatches each of its lines under a guard, and so does the session, under a laxer one.
  induction hruns generalizing h with
  | exhausted => exact hstop.elim
  | @missing left steps guard s hl =>
    rw [State.log_of_not_dispatches (State.not_dispatches_of_missing hl)]
    intro more steps' g runs events hmore _ _
    obtain ⟨more, rfl⟩ : ∃ k, more = k + 1 := ⟨more - 1, by omega⟩
    have hnone : p.line? s.pc = none := by
      rw [hunmarks s.pc] at hl
      exact Option.map_eq_none_iff.1 hl
    rw [State.runFrom, hnone, pausesAfter_nil, List.map_nil, List.append_nil]
    rfl
  | paused hl hbreakpoint =>
    rw [hunmarks.breakpoint_eq_false hl] at hbreakpoint
    exact absurd hbreakpoint (by simp)
  | @faulted left steps guard g' s t fault hdispatches he =>
    subst hguard
    obtain ⟨l, hl⟩ := hunmarks.line?_of_dispatches hdispatches
    rw [State.log_of_ended hdispatches (Visit.not_continues_of_fault he)]
    rw [hdispatch] at he
    have hresult : ∀ source target,
        (.error fault : Except Fault Flow) ≠ .error (.tooManyJumps source target) := by
      intro source target heq
      exact hstop source target (Except.error.inj heq)
    refine follows_of_last hl hleft hfresh he hresult ?_
    intro more steps' g guard runs events hdispatches' he'
    rw [State.runFrom_of_dispatches hdispatches', he']
    rfl
  | @halted left steps guard g' s t hdispatches he =>
    subst hguard
    obtain ⟨l, hl⟩ := hunmarks.line?_of_dispatches hdispatches
    rw [State.log_of_ended hdispatches (Visit.not_continues_of_halt he)]
    rw [hdispatch] at he
    refine follows_of_last hl hleft hfresh he (by simp) ?_
    intro more steps' g guard runs events hdispatches' he'
    rw [State.runFrom_of_dispatches hdispatches', he']
    rfl
  | @ranOut left steps guard g' s t hdispatches he hpc =>
    subst hguard
    obtain ⟨l, hl⟩ := hunmarks.line?_of_dispatches hdispatches
    rw [State.log_of_ended hdispatches (Visit.not_continues_of_not_lt he hpc)]
    rw [hdispatch] at he
    rw [hunmarks.size_eq] at hpc
    refine follows_of_last hl hleft hfresh he (by simp) ?_
    intro more steps' g guard runs events hdispatches' he'
    rw [State.runFrom_of_dispatches hdispatches', he']
    simp only [if_neg hpc]
    rfl
  | @advanced left steps guard g' s t u stop hdispatches he hpc _ ih =>
    subst hguard
    obtain ⟨l, hl⟩ := hunmarks.line?_of_dispatches hdispatches
    rw [State.log_of_advanced hdispatches he hpc]
    rw [hdispatch] at he
    rw [hunmarks.size_eq] at hpc
    refine follows_of_dispatches hl hleft hfresh ?_
    intro more steps' g runs events hmore hlax hdispatches' hlength
    obtain ⟨g'', h', rfl, hlax', hbound, hlimit, he'⟩ := State.dispatch_of_laxer hlax he (by simp)
    have hfresh' : (freshGuard p b).Laxer h' :=
      JumpGuard.laxer_start (hbound.trans hfresh.bound.symm) (hlimit ▸ hfresh.limit)
    rw [State.runFrom_of_dispatches hdispatches', he']
    simp only [if_pos hpc]
    exact ih hstop rfl (by omega) hfresh' more (steps' + 1) g'' runs events hmore hlax' hlength

/-! ## §4 Sessions of machines -/

/-- The lines with a breakpoint in one machine to which another machine comes when it runs, in order. The
line at which the run starts is left out. -/
def pausesAlong (m n : Machine) : List Nat :=
  (n.log.tail.map Visit.line).filter (· ∈ m.breakpoints)

/-- **Breakpoints do not change what a resumed session does.** If one run of the machine without
breakpoints comes to its end, or to a fault of the program, then the session ends likewise and leaves the
same state. It pauses where that run comes to a line with a breakpoint, and one run more than there are
pauses suffices for it. -/
theorem run_unmarked {m n : Machine} (hm : m.Reachable) (hn : n.Reachable) (hsame : n.Unmarks m)
    (hend : Conclusive (n.perform Machine.run).1) :
    ∀ runs, (pausesAlong m n).length < runs →
      run runs false m = ⟨(pausesAlong m n).map .paused, .ofRun (n.perform Machine.run).1,
        { m with state := (n.perform Machine.run).2.state }⟩ ∧
      (run runs false m).text = String.join ((pausesAlong m n).map fun line =>
        "Breakpoint at line " ++ Decimal.ofNat (line + 1) ++ "\n") := by
  intro runs hlength
  have hmbuilt := hm.sound.built
  have hnbuilt := hn.sound.built
  obtain ⟨program, s, b⟩ := m
  obtain ⟨program', s', b'⟩ := n
  obtain ⟨rfl, rfl, hprogram⟩ := hsame
  cases hprogram with
  | none => exact hend.elim
  | @some q p hunmarks =>
    obtain ⟨runs, rfl⟩ : ∃ k, runs = k + 1 := ⟨runs - 1, by omega⟩
    -- Both begin at the same line, and neither guard has counted anything.
    have hlax : (freshGuard p b').Laxer (freshGuard q b') :=
      JumpGuard.laxer_start (by rw [freshGuard, hunmarks.size_eq]; rfl) (Nat.le_refl _)
    have hruns := State.runs_runFrom q b'.maxSteps.toNat b'.maxSteps.toNat 0
      (some (freshGuard q b')) (s'.wrapped q)
    rw [Machine.perform_run] at hend ⊢
    have hfollows := follows_of_runs hunmarks (hnbuilt q rfl).indexed (hmbuilt p rfl).indexed hruns hend
      rfl (Nat.le_refl _) hlax b'.maxSteps.toNat 0 (freshGuard p b') runs [] (Nat.le_refl _) hlax
      (Nat.le_of_lt_succ hlength)
    have hrun := runFrom_succ p b' s' runs []
    rw [State.run, ← hunmarks.wrapped] at hrun
    rw [run, hrun]
    refine ⟨hfollows, ?_⟩
    refine (congrArg Transcript.text hfollows).trans ?_
    rw [Transcript.text, List.reverse_nil, List.nil_append, List.map_map]
    rfl

/-- A program that counts `R31` down from three to zero, with or without breakpoints. -/
def watched (on : Bool) : Program :=
  .ofLines [
    ⟨none, on, some (.immediate .add .link .zero 3)⟩,
    ⟨some "Loop", on, some (.immediate .sub .link .link 1)⟩,
    ⟨none, false, some (.branch .notZero .link "Loop")⟩,
    ⟨none, on, some .halt⟩]

/-- A new machine into which that program has been loaded. -/
def watching (on : Bool) : Machine :=
  ⟨some (watched on), .initial, .standard⟩

theorem reachable_watching (on : Bool) : (watching on).Reachable := by
  have hloaded : watching on = (Machine.initial.obey (.load (watched on))).2 := by
    cases on <;> rfl
  rw [hloaded]
  exact .obey .initial (.ofLines _)

theorem unmarks_watching : (watching false).Unmarks (watching true) where
  state := rfl
  budget := rfl
  program := .some fun
    | 0 | 1 | 2 | 3 | _ + 4 => rfl

theorem run_unmarked_watching :
    (watching true).Reachable ∧ (watching false).Reachable ∧
      (watching false).Unmarks (watching true) ∧
      Conclusive ((watching false).perform Machine.run).1 ∧
      (run 5 false (watching true)).events = [.paused 1, .paused 1, .paused 1, .paused 3] ∧
      (run 5 false (watching true)).ending = .finished := by
  have hcompleted : ((watching false).perform Machine.run).1 = .ok (.completed 8) := rfl
  have hend : Conclusive ((watching false).perform Machine.run).1 := by
    rw [hcompleted]
    trivial
  have h := run_unmarked (reachable_watching true) (reachable_watching false) unmarks_watching
  obtain ⟨htranscript, -⟩ := h hend 5 (by decide)
  rw [htranscript]
  refine ⟨reachable_watching true, reachable_watching false, unmarks_watching, hend, rfl, ?_⟩
  rw [hcompleted]
  rfl

end Dlx.Session
