import Dlx.Proofs.Machine.Guard
import Dlx.Proofs.Machine.Lockstep

/-!
# Runs under larger budgets

A budget only ends runs. What a run does before its budget ends it does not depend on the budget, so a
run that comes to another end comes to the same end under every larger budget.

- **§1** ends that are not due to the budget (`WithinBudget`)
- **§2** a run that may dispatch more lines, under a laxer guard
- **§3** on a machine
-/

namespace Dlx

/-! ## §1 Ends within a budget -/

/-- Neither number of the budget has ended the run. -/
def WithinBudget : Except MachineError Stop → Prop
  | .error (.tooManySteps _) => False
  | .error (.fault _ (.tooManyJumps _ _)) => False
  | _ => True

/-- A fault within the budget is not that of a jump that is refused for its number. -/
theorem WithinBudget.ne_tooManyJumps {line : Nat} {fault : Fault}
    (h : WithinBudget (.error (.fault line fault))) (source target : Nat) :
    (.error fault : Except Fault Flow) ≠ .error (.tooManyJumps source target) := by
  intro heq
  obtain rfl := Except.error.inj heq
  exact h

/-! ## §2 More lines and a laxer guard -/

/-- **A run within its budget is the same under a larger one**: it may dispatch some more lines, and its
guard is at least as lax. -/
theorem State.Runs.of_laxer {p : Program} {limit left steps : Nat} {guard : Option JumpGuard}
    {s t : State} {stop : Except MachineError Stop} (hruns : Runs p limit left steps guard s stop t)
    (hstop : WithinBudget stop) {g h : JumpGuard} (hguard : guard = some h) (hlax : g.Laxer h)
    (limit' extra : Nat) : Runs p limit' (extra + left) steps (some g) s stop t := by
  -- On the run; line by line both guards allow the same, and the laxer one stays so.
  induction hruns generalizing g h with
  | exhausted => exact hstop.elim
  | missing hl => exact .missing hl
  | paused hl hbreakpoint hsteps => exact .paused hl hbreakpoint hsteps
  | faulted hdispatches he =>
    subst hguard
    obtain ⟨g', h', -, -, -, -, he'⟩ := dispatch_of_laxer hlax he hstop.ne_tooManyJumps
    exact .faulted hdispatches he'
  | halted hdispatches he =>
    subst hguard
    obtain ⟨g', h', -, -, -, -, he'⟩ := dispatch_of_laxer hlax he (by simp)
    exact .halted hdispatches he'
  | ranOut hdispatches he hpc =>
    subst hguard
    obtain ⟨g', h', -, -, -, -, he'⟩ := dispatch_of_laxer hlax he (by simp)
    exact .ranOut hdispatches he' hpc
  | advanced hdispatches he hpc _ ih =>
    subst hguard
    obtain ⟨g', h', rfl, hlax', -, -, he'⟩ := dispatch_of_laxer hlax he (by simp)
    exact .advanced hdispatches he' hpc (ih hstop rfl hlax')

/-! ## §3 On a machine -/

/-- **A run that fits its budget means the same under every larger one.** If the run ends otherwise than
by the number of its lines or of its jumps, then under a budget that is at least as large in both numbers
it ends in the same way and leaves the same machine. -/
theorem Machine.run_of_le_budget (m : Machine) {b c : Budget} (hsteps : b.maxSteps ≤ c.maxSteps)
    (hjumps : b.maxJumps ≤ c.maxJumps) (hstop : WithinBudget (({ m with budget := b }).perform run).1) :
    ({ m with budget := c }).perform run =
      ((({ m with budget := b }).perform run).1,
        { (({ m with budget := b }).perform run).2 with budget := c }) := by
  obtain ⟨program, s, b'⟩ := m
  cases program with
  | none => rfl
  | some p =>
    show (⟨some p, s, c⟩ : Machine).perform run =
      (((⟨some p, s, b⟩ : Machine).perform run).1,
        { ((⟨some p, s, b⟩ : Machine).perform run).2 with budget := c })
    have hstop : WithinBudget ((⟨some p, s, b⟩ : Machine).perform run).1 := hstop
    rw [perform_run] at hstop ⊢
    rw [perform_run]
    -- Both guards have counted nothing yet, and the second one has the higher limit.
    have hlax : (JumpGuard.start p.size c.maxJumps.toNat).Laxer (.start p.size b.maxJumps.toNat) :=
      JumpGuard.laxer_start rfl hjumps
    have hruns := State.runs_runFrom p b.maxSteps.toNat b.maxSteps.toNat 0
      (some (.start p.size b.maxJumps.toNat)) (s.wrapped p)
    obtain ⟨extra, hextra⟩ := Nat.exists_eq_add_of_le' (UInt32.le_iff_toNat_le.1 hsteps)
    have hmore := hruns.of_laxer hstop rfl hlax c.maxSteps.toNat extra
    rw [← hextra] at hmore
    have hrun : s.run p c = s.run p b := (State.runs_iff p _ _ _ _ _ _ _).1 hmore
    rw [hrun]

theorem run_of_le_budget_countdown :
    (Budget.check ⟨8, 2⟩ = .ok () ∧ Budget.standard.check = .ok ()) ∧
    WithinBudget ((⟨some countdown, .initial, ⟨8, 2⟩⟩ : Machine).perform Machine.run).1 ∧
    ((⟨some countdown, .initial, .standard⟩ : Machine).perform Machine.run).1 =
      .ok (.completed 8) ∧
    ((⟨some countdown, .initial, .standard⟩ : Machine).perform Machine.run).2.state =
      ((⟨some countdown, .initial, ⟨8, 2⟩⟩ : Machine).perform Machine.run).2.state := by
  have hcompleted : ((⟨some countdown, .initial, ⟨8, 2⟩⟩ : Machine).perform Machine.run).1 =
      .ok (.completed 8) := rfl
  have hstop : WithinBudget ((⟨some countdown, .initial, ⟨8, 2⟩⟩ : Machine).perform Machine.run).1 := by
    rw [hcompleted]
    trivial
  have hrun : (⟨some countdown, .initial, .standard⟩ : Machine).perform Machine.run = _ :=
    Machine.run_of_le_budget ⟨some countdown, .initial, .standard⟩ (b := ⟨8, 2⟩) (c := .standard)
      (by decide) (by decide) hstop
  rw [hrun]
  exact ⟨⟨rfl, rfl⟩, hstop, hcompleted, rfl⟩

end Dlx
