import Dlx.Proofs.Machine.Guard
import Dlx.Proofs.Machine.Run

/-!
# The log of a run

A run answers with its end and the state that it leaves. Here it keeps a log besides: every line that it
dispatches, with the state and the guard with which it does so. What dispatching the line does, and which
jump it attempts and takes, is read off from these.

- **§1** visits to lines (`Visit`)
- **§2** the log of a run (`State.log`), for each way in which a run ends
- **§3** on a machine
-/

namespace Dlx

/-! ## §1 Visits -/

/-- A line is dispatched in a state, under a guard. -/
structure Visit where
  state : State
  guard : Option JumpGuard

namespace Visit

/-- The line that is dispatched. -/
def line (v : Visit) : Nat :=
  v.state.pc

/-- What dispatching the line leaves behind. -/
def execution (p : Program) (v : Visit) : Execution :=
  v.state.dispatch p v.line v.guard

/-- The program continues at one of its lines. -/
def Continues (p : Program) (v : Visit) : Prop :=
  ∃ t g, v.execution p = ⟨.ok .next, t, g⟩ ∧ t.pc < p.size

/-- The jump that the line attempts. -/
def attempt? (p : Program) (v : Visit) : Option Jump :=
  p.jump? v.state v.line

/-- The jump that the line takes: the one that it attempts, unless that is refused. -/
def taken? (p : Program) (v : Visit) : Option Jump :=
  match (v.execution p).result with
  | .ok _ => v.attempt? p
  | .error _ => none

theorem source_of_attempt? {p : Program} {v : Visit} {j : Jump} (h : v.attempt? p = some j) :
    j.source = v.line :=
  (Program.effectAt_of_jump? h).1

theorem attempt?_of_taken? {p : Program} {v : Visit} {j : Jump} (h : v.taken? p = some j) :
    v.attempt? p = some j := by
  rw [taken?] at h
  split at h
  · exact h
  · exact absurd h (by simp)

end Visit

section

variable {p : Program} {v : Visit} {t : State} {guard : Option JumpGuard}

theorem Visit.not_continues_of_fault {fault : Fault} (h : v.execution p = ⟨.error fault, t, guard⟩) :
    ¬ v.Continues p := by
  rintro ⟨u, g, hnext, -⟩
  exact absurd (Execution.mk.inj (h.symm.trans hnext)).1 (by simp)

theorem Visit.not_continues_of_halt (h : v.execution p = ⟨.ok .halt, t, guard⟩) :
    ¬ v.Continues p := by
  rintro ⟨u, g, hnext, -⟩
  exact absurd (Execution.mk.inj (h.symm.trans hnext)).1 (by simp)

theorem Visit.not_continues_of_not_lt (h : v.execution p = ⟨.ok .next, t, guard⟩)
    (hpc : ¬ t.pc < p.size) : ¬ v.Continues p := by
  rintro ⟨u, g, hnext, hlt⟩
  obtain ⟨-, rfl, -⟩ := Execution.mk.inj (h.symm.trans hnext)
  exact hpc hlt

end

/-- The jumps that have been taken, in order. -/
def takenJumps (p : Program) (visits : List Visit) : List Jump :=
  visits.filterMap (Visit.taken? p)

@[simp]
theorem takenJumps_nil (p : Program) : takenJumps p [] = [] := rfl

theorem takenJumps_cons (p : Program) (v : Visit) (visits : List Visit) :
    takenJumps p (v :: visits) = (v.taken? p).toList ++ takenJumps p visits := by
  rw [takenJumps, takenJumps, List.filterMap_cons]
  cases v.taken? p <;> rfl

/-! ## §2 Logs -/

namespace State

instance (p : Program) (steps : Nat) (s : State) : Decidable (s.Dispatches p steps) :=
  inferInstanceAs (Decidable (∃ l, l ∈ p.line? s.pc ∧ ¬ (l.breakpoint = true ∧ steps ≠ 0)))

/-- The lines that a run dispatches, in order. Its arguments are those of the run. -/
def log (p : Program) : Nat → Nat → Option JumpGuard → State → List Visit
  | 0, _, _, _ => []
  | left + 1, steps, guard, s =>
    if s.Dispatches p steps then
      ⟨s, guard⟩ ::
        match s.dispatch p s.pc guard with
        | ⟨.ok .next, t, g⟩ => if t.pc < p.size then t.log p left (steps + 1) g else []
        | _ => []
    else []

section

variable {p : Program} {left steps : Nat} {guard g : Option JumpGuard} {s t : State}

/-- Nothing is dispatched if there is no line, or if the run pauses. -/
theorem log_of_not_dispatches (h : ¬ s.Dispatches p steps) : s.log p left steps guard = [] := by
  cases left with
  | zero => rfl
  | succ left => rw [log, if_neg h]

theorem not_dispatches_of_missing (h : p.line? s.pc = none) : ¬ s.Dispatches p steps := by
  rintro ⟨l, hl, -⟩
  exact absurd (h.symm.trans hl) (by simp)

theorem not_dispatches_of_paused {l : Line} (hl : p.line? s.pc = some l)
    (hbreakpoint : l.breakpoint = true) (hsteps : steps ≠ 0) : ¬ s.Dispatches p steps := by
  rintro ⟨k, hk, hpause⟩
  obtain rfl := Option.some.inj (hl.symm.trans hk)
  exact hpause ⟨hbreakpoint, hsteps⟩

/-- The last line of a run. -/
theorem log_of_ended (hdispatches : s.Dispatches p steps)
    (hended : ¬ (⟨s, guard⟩ : Visit).Continues p) :
    s.log p (left + 1) steps guard = [⟨s, guard⟩] := by
  rw [log, if_pos hdispatches]
  congr 1
  rcases he : s.dispatch p s.pc guard with ⟨fault | flow, t, g⟩
  · rfl
  · cases flow with
    | halt => rfl
    | next => exact if_neg fun hpc => hended ⟨t, g, he, hpc⟩

/-- A line after which the run goes on. -/
theorem log_of_advanced (hdispatches : s.Dispatches p steps)
    (he : s.dispatch p s.pc guard = ⟨.ok .next, t, g⟩) (hpc : t.pc < p.size) :
    s.log p (left + 1) steps guard = ⟨s, guard⟩ :: t.log p left (steps + 1) g := by
  rw [log, if_pos hdispatches, he]
  exact congrArg _ (if_pos hpc)

/-- **The three ways in which a log begins**: with nothing, with the last line of the run, or with a line
after which the run goes on. -/
theorem log_cases (p : Program) (left steps : Nat) (guard : Option JumpGuard) (s : State) :
    (¬ s.Dispatches p steps ∧ s.log p (left + 1) steps guard = []) ∨
    (s.Dispatches p steps ∧ ¬ (⟨s, guard⟩ : Visit).Continues p ∧
      s.log p (left + 1) steps guard = [⟨s, guard⟩]) ∨
    ∃ t g, s.Dispatches p steps ∧ s.dispatch p s.pc guard = ⟨.ok .next, t, g⟩ ∧ t.pc < p.size ∧
      s.log p (left + 1) steps guard = ⟨s, guard⟩ :: t.log p left (steps + 1) g := by
  by_cases hdispatches : s.Dispatches p steps
  · by_cases hcontinues : (⟨s, guard⟩ : Visit).Continues p
    · obtain ⟨t, g, he, hpc⟩ := hcontinues
      exact .inr (.inr ⟨t, g, hdispatches, he, hpc, log_of_advanced hdispatches he hpc⟩)
    · exact .inr (.inl ⟨hdispatches, hcontinues, log_of_ended hdispatches hcontinues⟩)
  · exact .inl ⟨hdispatches, log_of_not_dispatches hdispatches⟩

/-- A run begins with the state and the guard that it is given. -/
theorem log_head {v : Visit} {rest : List Visit} (h : s.log p left steps guard = v :: rest) :
    v = ⟨s, guard⟩ := by
  cases left with
  | zero => exact absurd h (by simp [log])
  | succ left =>
    obtain ⟨-, hlog⟩ | ⟨-, -, hlog⟩ | ⟨t, g, -, -, -, hlog⟩ := log_cases p left steps guard s
    · exact absurd (hlog.symm.trans h) (by simp)
    · exact (List.cons.inj (hlog.symm.trans h)).1.symm
    · exact (List.cons.inj (hlog.symm.trans h)).1.symm

/-- Every line is dispatched in the state and under the guard that the line before has left. -/
theorem log_linked {front rest : List Visit} {v w : Visit}
    (h : s.log p left steps guard = front ++ v :: w :: rest) :
    v.execution p = ⟨.ok .next, w.state, w.guard⟩ := by
  -- On the lines that may be dispatched; the first one is in front or is the line in question.
  induction left generalizing steps guard s front with
  | zero => exact absurd h (by simp [log])
  | succ left ih =>
    obtain ⟨-, hlog⟩ | ⟨-, -, hlog⟩ | ⟨t, g, -, he, -, hlog⟩ := log_cases p left steps guard s
    · exact absurd (hlog.symm.trans h) (by simp)
    · exact absurd (congrArg List.length (hlog.symm.trans h)) (by simp; omega)
    · rw [hlog] at h
      cases front with
      | nil =>
        obtain ⟨rfl, hrest⟩ := List.cons.inj h
        rw [log_head hrest]
        exact he
      | cons u front => exact ih (List.cons.inj h).2

/-- The lines of a log: the first one, and those of the rest of the run if it goes on. -/
theorem mem_log_iff {v : Visit} :
    v ∈ s.log p (left + 1) steps guard ↔
      s.Dispatches p steps ∧ (v = ⟨s, guard⟩ ∨ ∃ t g, s.dispatch p s.pc guard = ⟨.ok .next, t, g⟩ ∧
        t.pc < p.size ∧ v ∈ t.log p left (steps + 1) g) := by
  obtain ⟨hdispatches, hlog⟩ | ⟨hdispatches, hended, hlog⟩ | ⟨t, g, hdispatches, he, hpc, hlog⟩ :=
    log_cases p left steps guard s
  · rw [hlog]
    simp [hdispatches]
  · rw [hlog, List.mem_singleton]
    refine ⟨fun hv => ⟨hdispatches, .inl hv⟩, ?_⟩
    rintro ⟨-, hv | ⟨t, g, he, hpc, -⟩⟩
    · exact hv
    · exact absurd ⟨t, g, he, hpc⟩ hended
  · rw [hlog, List.mem_cons]
    constructor
    · rintro (hv | hv)
      · exact ⟨hdispatches, .inl hv⟩
      · exact ⟨hdispatches, .inr ⟨t, g, he, hpc, hv⟩⟩
    · rintro ⟨-, hv | ⟨u, g', hu, -, hv⟩⟩
      · exact .inl hv
      · obtain ⟨-, rfl, rfl⟩ := Execution.mk.inj (he.symm.trans hu)
        exact .inr hv

/-- **A run ends with a fault** exactly if a line in its log has that fault. -/
theorem Runs.fault_iff {limit : Nat} {stop : Except MachineError Stop}
    (h : Runs p limit left steps guard s stop t) (line : Nat) (fault : Fault) :
    stop = .error (.fault line fault) ↔
      ∃ v ∈ s.log p left steps guard, v.line = line ∧ (v.execution p).result = .error fault := by
  -- On the run; only its last line can have a fault.
  induction h with
  | exhausted => simp [log]
  | missing hl =>
    rw [log_of_not_dispatches (not_dispatches_of_missing hl)]
    simp
  | paused hl hbreakpoint hsteps =>
    rw [log_of_not_dispatches (not_dispatches_of_paused hl hbreakpoint hsteps)]
    simp
  | @faulted left steps guard g s t other hdispatches he =>
    have hexecution : Visit.execution p ⟨s, guard⟩ = ⟨.error other, t, g⟩ := he
    rw [log_of_ended hdispatches (Visit.not_continues_of_fault hexecution)]
    simp [hexecution, Visit.line]
  | @halted left steps guard g s t hdispatches he =>
    have hexecution : Visit.execution p ⟨s, guard⟩ = ⟨.ok .halt, t, g⟩ := he
    rw [log_of_ended hdispatches (Visit.not_continues_of_halt hexecution)]
    simp [hexecution]
  | @ranOut left steps guard g s t hdispatches he hpc =>
    have hexecution : Visit.execution p ⟨s, guard⟩ = ⟨.ok .next, t, g⟩ := he
    rw [log_of_ended hdispatches (Visit.not_continues_of_not_lt hexecution hpc)]
    simp [hexecution]
  | @advanced left steps guard g s t u stop hdispatches he hpc _ ih =>
    have hexecution : Visit.execution p ⟨s, guard⟩ = ⟨.ok .next, t, g⟩ := he
    rw [log_of_advanced hdispatches he hpc, ih]
    simp [hexecution]

/-- **A run that completes has counted the lines of its log.** -/
theorem Runs.completed_eq {limit : Nat} {stop : Except MachineError Stop}
    (h : Runs p limit left steps guard s stop t) {count : Nat} (hstop : stop = .ok (.completed count)) :
    count = steps + (s.log p left steps guard).length := by
  -- On the run; it completes with a line that halts.
  induction h with
  | exhausted | missing | paused | faulted | ranOut => exact absurd hstop (by simp)
  | halted hdispatches he =>
    rw [log_of_ended hdispatches (Visit.not_continues_of_halt he)]
    exact (Stop.completed.inj (Except.ok.inj hstop)).symm
  | advanced hdispatches he hpc _ ih =>
    rw [log_of_advanced hdispatches he hpc, List.length_cons, ih hstop]
    omega

/-- A run dispatches no more lines than it may. -/
theorem length_log_le (left steps : Nat) (guard : Option JumpGuard) (s : State) :
    (s.log p left steps guard).length ≤ left := by
  -- On the lines that may be dispatched.
  induction left generalizing steps guard s with
  | zero => exact Nat.le_refl 0
  | succ left ih =>
    obtain ⟨-, hlog⟩ | ⟨-, -, hlog⟩ | ⟨t, g, -, -, -, hlog⟩ := log_cases p left steps guard s
    · rw [hlog]
      exact Nat.zero_le _
    · rw [hlog]
      exact Nat.succ_le_succ (Nat.zero_le left)
    · rw [hlog, List.length_cons]
      exact Nat.succ_le_succ (ih (steps + 1) g t)

/-- A run that pauses would have been allowed another line. -/
theorem Runs.length_log_lt {limit left steps : Nat} {guard : Option JumpGuard} {s t : State}
    {stop : Except MachineError Stop} (h : Runs p limit left steps guard s stop t) {line : Nat}
    (hstop : stop = .ok (.paused line)) : (s.log p left steps guard).length < left := by
  -- On the run; it pauses before a line that it does not dispatch.
  induction h with
  | exhausted | missing | faulted | halted | ranOut => exact absurd hstop (by simp)
  | paused hl hbreakpoint hsteps =>
    rw [log_of_not_dispatches (not_dispatches_of_paused hl hbreakpoint hsteps)]
    exact Nat.succ_pos _
  | advanced hdispatches he hpc _ ih =>
    rw [log_of_advanced hdispatches he hpc, List.length_cons]
    exact Nat.succ_lt_succ (ih hstop)

/-- A run that has no error at the line where it starts dispatches that line. -/
theorem Runs.length_log_pos {p : Program} {limit left : Nat} {guard : Option JumpGuard} {s t : State}
    {how : Stop} (h : Runs p limit left 0 guard s (.ok how) t) : 0 < (s.log p left 0 guard).length := by
  cases h with
  | paused hl hbreakpoint hsteps => exact absurd rfl hsteps
  | halted hdispatches he =>
    rw [log_of_ended hdispatches (Visit.not_continues_of_halt he)]
    exact Nat.succ_pos _
  | advanced hdispatches he hpc =>
    rw [log_of_advanced hdispatches he hpc]
    exact Nat.succ_pos _

end

end State

/-! ## §3 On a machine -/

/-- The lines that a machine dispatches when it runs, in order. -/
def Machine.log (m : Machine) : List Visit :=
  match m.program with
  | none => []
  | some p =>
    (m.state.wrapped p).log p m.budget.maxSteps.toNat 0
      (some (.start p.size m.budget.maxJumps.toNat))

namespace Machine

theorem length_log_le (m : Machine) : m.log.length ≤ m.budget.maxSteps.toNat := by
  unfold log
  split
  · exact Nat.zero_le _
  · exact State.length_log_le ..

theorem length_log_lt {m : Machine} {line : Nat} (h : (m.perform run).1 = .ok (.paused line)) :
    m.log.length < m.budget.maxSteps.toNat := by
  obtain ⟨program, s, b⟩ := m
  cases program with
  | none => exact absurd h (by simp [run, perform_running])
  | some p =>
    rw [perform_run] at h
    exact (State.runs_runFrom p _ _ 0 _ _).length_log_lt h

end Machine

end Dlx
