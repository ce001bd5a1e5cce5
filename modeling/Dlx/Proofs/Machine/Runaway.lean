import Dlx.Proofs.Machine.Lockstep
import Dlx.Proofs.Machine.Log

/-!
# Programs that run away

Two budgets stop a program that runs away, and both are exact. A run never dispatches more lines than
it may, and it complains about their number exactly if it has dispatched all of them and would go on. No
jump is taken more often than allowed, and a run complains about a jump exactly if that jump is attempted
once more than that; nothing is done then.

- **§1** one line, under a guard that has counted exactly the jumps that have been taken
- **§2** how the end of a run and its log belong together (`Kept`)
- **§3** runs of a machine
-/

namespace Dlx

/-! ## §1 One line -/

namespace Visit

variable {p : Program} {v : Visit} {g : JumpGuard} {past : List Jump}

/-- A line under an exact guard attempts a jump that has been taken as often as allowed, and nothing is
done. -/
structure Refused (p : Program) (v : Visit) (jumps : Nat) (past : List Jump) (j : Jump) : Prop where
  attempt : v.attempt? p = some j
  count : past.count j = jumps
  execution : ∃ guard,
    v.execution p = ⟨.error (.tooManyJumps j.source j.target), v.state, guard⟩

/-- A line under an exact guard attempts no such jump, and the guard stays exact. -/
structure Allowed (p : Program) (v : Visit) (jumps : Nat) (past : List Jump) : Prop where
  count : ∀ j, v.attempt? p = some j → past.count j ≠ jumps
  result : ∀ source target, (v.execution p).result ≠ .error (.tooManyJumps source target)
  guard : ∃ g : JumpGuard, (v.execution p).guard = some g ∧ g.limit = jumps ∧
    g.Tallies (past ++ (v.taken? p).toList)

theorem Allowed.within {jumps : Nat} (h : v.Allowed p jumps past) (j : Jump) :
    (past ++ (v.taken? p).toList).count j ≤ jumps := by
  obtain ⟨g, -, rfl, htallies⟩ := h.guard
  exact htallies.within j

/-- **What an exact guard makes of a line.** -/
theorem refused_or_allowed (hguard : v.guard = some g) (h : g.Tallies past) (hlimit : 0 < g.limit)
    (hlength : past.length < JumpTally.greatestCount) :
    (∃ j, v.Refused p g.limit past j) ∨ v.Allowed p g.limit past := by
  obtain ⟨s, guard⟩ := v
  obtain rfl : guard = some g := hguard
  cases hjump : p.jump? s s.pc with
  | none =>
    -- The line does what it does without a guard, and counts nothing.
    have he : execution p ⟨s, some g⟩ = { s.dispatch p s.pc none with guard := some g } :=
      State.dispatch_of_jump?_eq_none hjump (some g)
    have htaken : taken? p ⟨s, some g⟩ = none := by
      unfold taken?
      split
      · exact hjump
      · rfl
    refine .inr ⟨fun j hj => absurd (hjump.symm.trans hj) (by simp), ?_, g, ?_, rfl, ?_⟩
    · intro source target hresult
      rw [he] at hresult
      exact State.trueOf_of_dispatch_none hresult
    · rw [he]
    · simpa [htaken] using h
  | some j =>
    have hattempt : ∀ k, attempt? p ⟨s, some g⟩ = some k → k = j := fun k hk =>
      Option.some.inj (hk.symm.trans hjump)
    rcases h.countJump hlimit hlength j with ⟨hcount, hc⟩ | ⟨hcount, hcounted, hc⟩ | ⟨hcount, hc⟩
    · exact .inl ⟨j, hjump, hcount, _, State.dispatch_of_refused hjump hc⟩
    · -- The jump is taken and counted.
      have he : execution p ⟨s, some g⟩ = _ := State.dispatch_of_allowed hjump hc
      have htaken : taken? p ⟨s, some g⟩ = some j := by
        rw [taken?, he]
        exact hjump
      refine .inr ⟨fun k hk => hattempt k hk ▸ Nat.ne_of_lt hcount, ?_, g.counted j, ?_, rfl, ?_⟩
      · intro source target
        rw [he]
        simp
      · rw [he]
      · simpa [htaken] using hcounted
    · -- The jump leads out of the program, and is not taken.
      have he : execution p ⟨s, some g⟩ = _ := State.dispatch_of_refused hjump hc
      have htaken : taken? p ⟨s, some g⟩ = none := by rw [taken?, he]
      refine .inr ⟨fun k hk => hattempt k hk ▸ Nat.ne_of_lt hcount, ?_, g, ?_, rfl, ?_⟩
      · intro source target
        rw [he]
        simp
      · rw [he]
      · simpa [htaken] using h

/-- A line that has no fault is not refused. -/
theorem allowed_of_ok (hguard : v.guard = some g) (h : g.Tallies past) (hlimit : 0 < g.limit)
    (hlength : past.length < JumpTally.greatestCount) {flow : Flow}
    (hresult : (v.execution p).result = .ok flow) : v.Allowed p g.limit past := by
  rcases refused_or_allowed hguard h hlimit hlength with ⟨j, -, -, guard, he⟩ | hallowed
  · rw [he] at hresult
    exact absurd hresult (by simp)
  · exact hallowed

end Visit

/-! ## §2 The end of a run and its log -/

/-- A jump is attempted that has been taken so many times before, in the past or in the log. -/
def Overtaken (p : Program) (jumps : Nat) (past : List Jump) (visits : List Visit) (j : Jump) : Prop :=
  ∃ front v rest, visits = front ++ v :: rest ∧ v.attempt? p = some j ∧
    (past ++ takenJumps p front).count j = jumps

theorem not_overtaken_nil (p : Program) (jumps : Nat) (past : List Jump) (j : Jump) :
    ¬ Overtaken p jumps past [] j := by
  rintro ⟨front, v, rest, hvisits, -⟩
  exact absurd hvisits (by simp)

theorem overtaken_cons_iff (p : Program) (jumps : Nat) (past : List Jump) (v : Visit)
    (visits : List Visit) (j : Jump) :
    Overtaken p jumps past (v :: visits) j ↔
      (v.attempt? p = some j ∧ past.count j = jumps) ∨
        Overtaken p jumps (past ++ (v.taken? p).toList) visits j := by
  constructor
  · rintro ⟨front, w, rest, hvisits, hattempt, hcount⟩
    cases front with
    | nil =>
      obtain ⟨rfl, rfl⟩ := List.cons.inj hvisits
      rw [takenJumps_nil, List.append_nil] at hcount
      exact .inl ⟨hattempt, hcount⟩
    | cons u front =>
      obtain ⟨rfl, rfl⟩ := List.cons.inj hvisits
      rw [takenJumps_cons, ← List.append_assoc] at hcount
      exact .inr ⟨front, w, rest, rfl, hattempt, hcount⟩
  · rintro (⟨hattempt, hcount⟩ | ⟨front, w, rest, rfl, hattempt, hcount⟩)
    · refine ⟨[], v, visits, rfl, hattempt, ?_⟩
      rwa [takenJumps_nil, List.append_nil]
    · refine ⟨v :: front, w, rest, rfl, hattempt, ?_⟩
      rwa [takenJumps_cons, ← List.append_assoc]

/-- How the end of a run and its log belong together. The jumps of `past` have been taken before the run,
which may dispatch `left` lines and take each jump `jumps` times, those of the past included. -/
structure Kept (p : Program) (limit left jumps : Nat) (past : List Jump) (visits : List Visit)
    (stop : Except MachineError Stop) (t : State) : Prop where
  length_le : visits.length ≤ left
  tooManySteps_iff : ∀ n, stop = .error (.tooManySteps n) ↔
    n = limit ∧ visits.length = left ∧ ∀ v ∈ visits, v.Continues p
  count_le : ∀ j, (past ++ takenJumps p visits).count j ≤ jumps
  tooManyJumps_iff : ∀ source target,
    (∃ line, stop = .error (.fault line (.tooManyJumps source target))) ↔
      Overtaken p jumps past visits ⟨source, target⟩
  refused : ∀ line source target, stop = .error (.fault line (.tooManyJumps source target)) →
    line = source ∧ t.pc = source ∧
      ∃ front v, visits = front ++ [v] ∧ v.attempt? p = some ⟨source, target⟩ ∧ t = v.state

namespace Kept

variable {p : Program} {limit left jumps : Nat} {past : List Jump} {v : Visit} {visits : List Visit}
  {stop : Except MachineError Stop} {t : State}

/-- A run that has used up its lines. -/
theorem exhausted (hpast : ∀ j, past.count j ≤ jumps) :
    Kept p limit 0 jumps past [] (.error (.tooManySteps limit)) t where
  length_le := Nat.le_refl 0
  tooManySteps_iff n := by simp [eq_comm]
  count_le j := by simpa using hpast j
  tooManyJumps_iff source target := by simp [not_overtaken_nil]
  refused line source target h := absurd h (by simp)

/-- A run that dispatches nothing although it might. -/
theorem idle (hpast : ∀ j, past.count j ≤ jumps) (hsteps : ∀ n, stop ≠ .error (.tooManySteps n))
    (hfault : ∀ line fault, stop ≠ .error (.fault line fault)) :
    Kept p limit (left + 1) jumps past [] stop t where
  length_le := Nat.zero_le _
  tooManySteps_iff n := by simp [hsteps n]
  count_le j := by simpa using hpast j
  tooManyJumps_iff source target := by simp [hfault, not_overtaken_nil]
  refused line source target h := absurd h (hfault line _)

/-- A run that ends with a line whose jump is not refused. -/
theorem allowed (h : v.Allowed p jumps past) (hended : ¬ v.Continues p)
    (hsteps : ∀ n, stop ≠ .error (.tooManySteps n))
    (hfault : ∀ line source target, stop ≠ .error (.fault line (.tooManyJumps source target))) :
    Kept p limit (left + 1) jumps past [v] stop t where
  length_le := Nat.succ_le_succ (Nat.zero_le left)
  tooManySteps_iff n := by simp [hsteps n, hended]
  count_le j := by
    rw [takenJumps_cons, takenJumps_nil, List.append_nil]
    exact h.within j
  tooManyJumps_iff source target := by
    rw [overtaken_cons_iff]
    constructor
    · rintro ⟨line, hline⟩
      exact absurd hline (hfault line source target)
    · rintro (⟨hattempt, hfull⟩ | hnil)
      · exact absurd hfull (h.count _ hattempt)
      · exact (not_overtaken_nil _ _ _ _ hnil).elim
  refused line source target hline := absurd hline (hfault line source target)

/-- A run that ends because the jump of a line is refused. -/
theorem refused_last {j : Jump} (h : v.Refused p jumps past j) (hpast : ∀ k, past.count k ≤ jumps) :
    Kept p limit (left + 1) jumps past [v] (.error (.fault v.line (.tooManyJumps j.source j.target)))
      v.state where
  length_le := Nat.succ_le_succ (Nat.zero_le left)
  tooManySteps_iff n := by
    obtain ⟨guard, he⟩ := h.execution
    simp [Visit.not_continues_of_fault he]
  count_le k := by
    obtain ⟨guard, he⟩ := h.execution
    have htaken : v.taken? p = none := by rw [Visit.taken?, he]
    simpa [takenJumps_cons, htaken] using hpast k
  tooManyJumps_iff source target := by
    rw [overtaken_cons_iff]
    constructor
    · rintro ⟨line, hline⟩
      obtain ⟨-, hfault⟩ := MachineError.fault.inj (Except.error.inj hline)
      obtain ⟨rfl, rfl⟩ := Fault.tooManyJumps.inj hfault
      exact .inl ⟨h.attempt, h.count⟩
    · rintro (⟨hattempt, -⟩ | hnil)
      · obtain rfl := Option.some.inj (h.attempt.symm.trans hattempt)
        exact ⟨v.line, rfl⟩
      · exact (not_overtaken_nil _ _ _ _ hnil).elim
  refused line source target hline := by
    obtain ⟨rfl, hfault⟩ := MachineError.fault.inj (Except.error.inj hline)
    obtain ⟨rfl, rfl⟩ := Fault.tooManyJumps.inj hfault
    have hsource := Visit.source_of_attempt? h.attempt
    exact ⟨hsource.symm, hsource.symm, [], v, rfl, h.attempt, rfl⟩

/-- A line after which the run goes on. -/
theorem cons (hcontinues : v.Continues p) (hallowed : v.Allowed p jumps past)
    (h : Kept p limit left jumps (past ++ (v.taken? p).toList) visits stop t) :
    Kept p limit (left + 1) jumps past (v :: visits) stop t where
  length_le := Nat.succ_le_succ h.length_le
  tooManySteps_iff n := by
    rw [h.tooManySteps_iff, List.length_cons, Nat.succ_inj, List.forall_mem_cons]
    simp [hcontinues]
  count_le j := by
    rw [takenJumps_cons, ← List.append_assoc]
    exact h.count_le j
  tooManyJumps_iff source target := by
    rw [h.tooManyJumps_iff, overtaken_cons_iff]
    constructor
    · exact .inr
    · rintro (⟨hattempt, hfull⟩ | hrest)
      · exact absurd hfull (hallowed.count _ hattempt)
      · exact hrest
  refused line source target hline := by
    obtain ⟨hsource, hpc, front, w, rfl, hattempt, hstate⟩ := h.refused line source target hline
    exact ⟨hsource, hpc, v :: front, w, rfl, hattempt, hstate⟩

end Kept

/-- **The end of a run and its log belong together**, if its guard has counted exactly the jumps that
have been taken before. The run is short enough for counts not to reach their greatest value. -/
theorem State.Runs.kept {p : Program} {limit left steps : Nat} {guard : Option JumpGuard} {s t : State}
    {stop : Except MachineError Stop} (h : Runs p limit left steps guard s stop t) {g : JumpGuard}
    {past : List Jump} (hguard : guard = some g) (htallies : g.Tallies past) (hlimit : 0 < g.limit)
    (hlength : past.length + left ≤ JumpTally.greatestCount) :
    Kept p limit left g.limit past (s.log p left steps guard) stop t := by
  -- On the run; what has been taken grows with the lines that are behind it.
  induction h generalizing g past with
  | exhausted => exact .exhausted htallies.within
  | missing hl =>
    rw [log_of_not_dispatches (not_dispatches_of_missing hl)]
    exact .idle htallies.within (by simp) (by simp)
  | paused hl hbreakpoint hsteps =>
    rw [log_of_not_dispatches (not_dispatches_of_paused hl hbreakpoint hsteps)]
    exact .idle htallies.within (by simp) (by simp)
  | @faulted left steps guard g' s t fault hdispatches he =>
    have hexecution : Visit.execution p ⟨s, guard⟩ = ⟨.error fault, t, g'⟩ := he
    have hended := Visit.not_continues_of_fault hexecution
    rw [log_of_ended hdispatches hended]
    -- The fault is that of a refused jump, or it has nothing to do with the guard.
    rcases Visit.refused_or_allowed (p := p) (v := ⟨s, guard⟩) hguard htallies hlimit (by omega) with
      ⟨j, hrefused⟩ | hallowed
    · obtain ⟨g'', he'⟩ := hrefused.execution
      obtain ⟨hfault, rfl, -⟩ := Execution.mk.inj (hexecution.symm.trans he')
      obtain rfl := Except.error.inj hfault
      exact .refused_last hrefused htallies.within
    · refine .allowed hallowed hended (by simp) ?_
      intro line source target hline
      obtain ⟨-, rfl⟩ := MachineError.fault.inj (Except.error.inj hline)
      exact hallowed.result source target (congrArg Execution.result hexecution)
  | @halted left steps guard g' s t hdispatches he =>
    have hexecution : Visit.execution p ⟨s, guard⟩ = ⟨.ok .halt, t, g'⟩ := he
    have hended := Visit.not_continues_of_halt hexecution
    rw [log_of_ended hdispatches hended]
    exact .allowed (Visit.allowed_of_ok hguard htallies hlimit (by omega)
      (congrArg Execution.result hexecution)) hended (by simp) (by simp)
  | @ranOut left steps guard g' s t hdispatches he hpc =>
    have hexecution : Visit.execution p ⟨s, guard⟩ = ⟨.ok .next, t, g'⟩ := he
    have hended := Visit.not_continues_of_not_lt hexecution hpc
    rw [log_of_ended hdispatches hended]
    exact .allowed (Visit.allowed_of_ok hguard htallies hlimit (by omega)
      (congrArg Execution.result hexecution)) hended (by simp) (by simp)
  | @advanced left steps guard g' s t u stop hdispatches he hpc _ ih =>
    have hexecution : Visit.execution p ⟨s, guard⟩ = ⟨.ok .next, t, g'⟩ := he
    have hallowed := Visit.allowed_of_ok hguard htallies hlimit (by omega)
      (congrArg Execution.result hexecution)
    rw [log_of_advanced hdispatches he hpc]
    obtain ⟨g'', hguard'', hlimit'', htallies''⟩ := hallowed.guard
    rw [hexecution] at hguard''
    -- At most one jump has been taken by this line.
    have htaken : ((⟨s, guard⟩ : Visit).taken? p).toList.length ≤ 1 := Option.length_toList_le
    have hrest := ih hguard'' htallies'' (by omega) (by rw [List.length_append]; omega)
    rw [hlimit''] at hrest
    exact .cons ⟨t, g', he, hpc⟩ hallowed hrest

/-! ## §3 Runs of a machine -/

/-- The end of a whole run and its log belong together, if the budget can be spent. -/
theorem State.kept_run (p : Program) (s : State) {b : Budget} (hbudget : b.check = .ok ()) :
    Kept p b.maxSteps.toNat b.maxSteps.toNat b.maxJumps.toNat [] (⟨some p, s, b⟩ : Machine).log
      (s.run p b).1 (s.run p b).2 := by
  obtain ⟨-, hjumps⟩ := Budget.pos_of_check hbudget
  have hsteps : b.maxSteps.toNat ≤ JumpTally.greatestCount :=
    Nat.le_pred_of_lt b.maxSteps.toNat_lt
  -- Nothing has been taken before the run, and nothing has been counted.
  have hruns := State.runs_runFrom p b.maxSteps.toNat b.maxSteps.toNat 0
    (some (.start p.size b.maxJumps.toNat)) (s.wrapped p)
  exact hruns.kept rfl (JumpGuard.tallies_start p.size b.maxJumps.toNat) hjumps (by simpa using hsteps)

/-- **The guards against programs that run away are exact.** The log of a run begins where the run starts,
every line in it is dispatched in the state that the line before has left, and a run that completes has
counted its lines. The log has at most as many lines as the budget allows; the run complains about their
number exactly if it has that many and the program continues after each of them, whether or not a
breakpoint is next. No jump is taken more often than the budget allows; the run complains about a jump
exactly if the jump is attempted after it has been taken as often as that, and this is the last line,
which stays next and has changed nothing. -/
theorem Machine.run_guards_exact (m : Machine) (p : Program) (hprogram : m.program = some p)
    (hbudget : m.budget.check = .ok ()) :
    ((∀ v rest, m.log = v :: rest → v.state = m.state.wrapped p) ∧
      (∀ front v w rest, m.log = front ++ v :: w :: rest →
        v.execution p = ⟨.ok .next, w.state, w.guard⟩) ∧
      ∀ steps, (m.perform run).1 = .ok (.completed steps) → steps = m.log.length) ∧
    m.log.length ≤ m.budget.maxSteps.toNat ∧
    (∀ limit, (m.perform run).1 = .error (.tooManySteps limit) ↔
      limit = m.budget.maxSteps.toNat ∧ m.log.length = m.budget.maxSteps.toNat ∧
        ∀ v ∈ m.log, v.Continues p) ∧
    (∀ j, (takenJumps p m.log).count j ≤ m.budget.maxJumps.toNat) ∧
    (∀ source target,
      (∃ line, (m.perform run).1 = .error (.fault line (.tooManyJumps source target))) ↔
        ∃ front v rest, m.log = front ++ v :: rest ∧ v.attempt? p = some ⟨source, target⟩ ∧
          (takenJumps p front).count ⟨source, target⟩ = m.budget.maxJumps.toNat) ∧
    ∀ line source target,
      (m.perform run).1 = .error (.fault line (.tooManyJumps source target)) →
        line = source ∧ (m.perform run).2.state.pc = source ∧
          ∃ front v, m.log = front ++ [v] ∧ v.attempt? p = some ⟨source, target⟩ ∧
            (m.perform run).2.state = v.state := by
  obtain ⟨program, s, b⟩ := m
  obtain rfl : program = some p := hprogram
  have hruns := State.runs_runFrom p b.maxSteps.toNat b.maxSteps.toNat 0
    (some (.start p.size b.maxJumps.toNat)) (s.wrapped p)
  have hkept := State.kept_run p s hbudget
  rw [perform_run]
  refine ⟨⟨?_, ?_, ?_⟩, hkept.length_le, hkept.tooManySteps_iff, hkept.count_le, hkept.tooManyJumps_iff,
    hkept.refused⟩
  · intro v rest hlog
    rw [State.log_head hlog]
  · exact fun front v w rest hlog => State.log_linked hlog
  · intro steps hcompleted
    rw [hruns.completed_eq hcompleted, Nat.zero_add]
    rfl

/-- A program that calls itself for ever. -/
def recursing : Program :=
  .ofLines [⟨some "Self", false, some (.jump true "Self")⟩]

theorem run_guards_exact_recursing :
    Budget.check ⟨100, 2⟩ = .ok () ∧
    ((⟨some recursing, .initial, ⟨100, 2⟩⟩ : Machine).perform Machine.run).1 =
      .error (.fault 0 (.tooManyJumps 0 0)) ∧
    ∃ front v, (⟨some recursing, .initial, ⟨100, 2⟩⟩ : Machine).log = front ++ [v] ∧
      v.attempt? recursing = some ⟨0, 0⟩ ∧
      ((⟨some recursing, .initial, ⟨100, 2⟩⟩ : Machine).perform Machine.run).2.state = v.state := by
  have h := Machine.run_guards_exact ⟨some recursing, .initial, ⟨100, 2⟩⟩ recursing rfl rfl
  obtain ⟨-, -, -, -, -, hrefused⟩ := h
  obtain ⟨-, -, hlast⟩ := hrefused 0 0 0 rfl
  exact ⟨rfl, rfl, hlast⟩

end Dlx
