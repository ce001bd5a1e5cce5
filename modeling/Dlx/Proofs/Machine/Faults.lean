import Dlx.Proofs.Machine.Invariant
import Dlx.Proofs.Machine.Lockstep
import Dlx.Proofs.Machine.Log

/-!
# Where faults come from

An instruction that has read all its values may still be refused: the tally of a run may not know the lines
of its jump, the limit of the run may be used up, and memory may have no cell at the address of its store.
On the machines that commands can give the limit alone refuses anything. So the fault of a line is the one
of its effect, and a run and a step report the same.

- **§1** the fault of an effect is the fault of its line
- **§2** a line that only the limit can refuse (`Visit.Settled`)
- **§3** the lines that a machine dispatches
-/

namespace Dlx

/-! ## §1 Faults of effects -/

/-- **A jump is out of range only through a register** whose word is no index of a line. -/
theorem Instruction.effect_eq_jumpOutOfRange_iff (p : Program) (s : State) (i : Instruction) (w : Word) :
    i.effect p s = .error (.jumpOutOfRange w) ↔
      ∃ linking rs, i = .jumpRegister linking rs ∧ s.registers.read rs = some w ∧
        ¬ (0 ≤ w.toInt ∧ w.toInt ≤ p.size) := by
  cases i with
  | jumpRegister linking rs =>
    -- An empty register is a fault of its own, and a line that has been found is none.
    simp only [effect, bind_eq_error_iff, State.fetch_eq_error_iff, State.fetch_eq_ok_iff,
      Program.lineOfWord_eq_error_iff, pure, Except.pure]
    constructor
    · rintro (⟨-, h⟩ | ⟨v, hread, ⟨hrange, h⟩ | ⟨_, -, h⟩⟩)
      · exact absurd h (by simp)
      · obtain rfl := Fault.jumpOutOfRange.inj h
        exact ⟨linking, rs, rfl, hread, hrange⟩
      · exact absurd h (by simp)
    · rintro ⟨_, _, h, hread, hrange⟩
      obtain ⟨rfl, rfl⟩ := Instruction.jumpRegister.inj h
      exact .inr ⟨w, hread, .inl ⟨hrange, rfl⟩⟩
  | load | store | register | immediate | branch | jump | halt =>
    simp [effect, bind_eq_error_iff, State.address_eq_error_iff, State.fetch_eq_error_iff,
      State.fetchMemory_eq_error_iff, Program.find_eq_error_iff, pure, Except.pure]

/-- A store that has an address complains only about its register. -/
theorem Instruction.noValue_of_effect_store {p : Program} {s : State} {target : Indirect} {rs : Register}
    {a : Address} {fault : Fault} (haddress : s.address target = .ok a)
    (h : (store target rs).effect p s = .error fault) : fault = .noValue (.register rs) := by
  simp only [effect, bind_eq_error_iff, haddress, State.fetch_eq_error_iff] at h
  obtain h | ⟨_, -, ⟨-, hfault⟩ | ⟨_, -, h⟩⟩ := h
  · exact absurd h (by simp)
  · exact hfault
  · exact absurd h (by simp [pure, Except.pure])

theorem Program.effectAt_eq_error_iff (p : Program) (s : State) (line : Nat) (fault : Fault) :
    p.effectAt s line = .error fault ↔
      ∃ i, p.instruction? line = some i ∧ i.effect p s = .error fault := by
  rw [effectAt]
  cases p.instruction? line <;> simp

namespace State

variable {p : Program} {s : State} {line : Nat} {guard : Option JumpGuard} {fault : Fault}

/-- **The fault of a line is the fault of its effect**, whether there is a guard or not. A refused jump is
the one exception. -/
theorem result_dispatch_eq_error_iff (hp : p.Indexed) (hguard : ∀ g, guard = some g → g.Fits p)
    (hline : line < p.size) (hfault : ∀ source target, fault ≠ .tooManyJumps source target) :
    (s.dispatch p line guard).result = .error fault ↔ p.effectAt s line = .error fault := by
  cases guard with
  | none => exact dispatch_none_eq_error_iff p s line fault
  | some g =>
    rcases dispatch_some hp (hguard g rfl) s hline with
      ⟨target, -, hrefused⟩ | ⟨result, t, _, -, hsome, hnone⟩
    · -- A line whose jump is refused has an effect.
      rw [hrefused]
      constructor
      · intro h
        exact absurd (Except.error.inj h).symm (hfault line target)
      · intro heffect
        rw [dispatch_eq, heffect] at hrefused
        exact absurd (Except.error.inj (Execution.mk.inj hrefused).1) (hfault line target)
    · rw [hsome, ← dispatch_none_eq_error_iff, hnone]

/-- A line whose jump is refused has an effect. -/
theorem effectAt_ne_error_of_refused {source target : Nat}
    (h : (s.dispatch p line guard).result = .error (.tooManyJumps source target)) :
    p.effectAt s line ≠ .error fault := by
  intro heffect
  rw [dispatch_eq, heffect] at h
  obtain rfl := Except.error.inj h
  exact Program.trueOf_of_effectAt heffect

/-- Without a guard no jump is refused. -/
theorem guard_ne_none_of_refused {source target : Nat}
    (h : (s.dispatch p line guard).result = .error (.tooManyJumps source target)) : guard ≠ none := by
  rintro rfl
  exact trueOf_of_dispatch_none h

/-- **The faults of a step** are those of the effect of its line. -/
theorem step_eq_fault_iff (hpc : s.pc < p.size) (line : Nat) (fault : Fault) :
    (s.step p).1 = .error (.fault line fault) ↔ line = s.pc ∧ p.effectAt s s.pc = .error fault := by
  obtain ⟨l, hl⟩ := (p.lt_size_iff s.pc).1 hpc
  rw [step_of_line (wrapped_of_lt hpc) hl, ← dispatch_none_eq_error_iff]
  rcases s.dispatch p s.pc none with ⟨other | flow, t, g⟩
  · simp [eq_comm]
  · cases flow with
    | halt => simp
    | next => by_cases ht : t.pc < p.size <;> simp [ht]

end State

/-! ## §2 Settled lines -/

/-- What a line reads settles whether it has a fault, up to the limit on jumps. A guard knows both lines of
a jump that it is shown. A jump is out of range exactly if it is one through a register whose word is no
index of a line. Memory takes any word at the address of a store. A step has the same fault at the line,
and no fault at all where a jump is one too many. -/
structure Visit.Settled (p : Program) (v : Visit) : Prop where
  recorded : ∀ g j, v.guard = some g → v.attempt? p = some j →
    (g.tally.record j g.limit).1 = .ok () ∨
      (g.tally.record j g.limit).1 = .error (.tooManyJumps j.source j.target)
  outOfRange : ∀ w, (v.execution p).result = .error (.jumpOutOfRange w) ↔
    ∃ linking rs, p.instruction? v.line = some (.jumpRegister linking rs) ∧
      v.state.registers.read rs = some w ∧ ¬ (0 ≤ w.toInt ∧ w.toInt ≤ p.size)
  written : ∀ target rs a, p.instruction? v.line = some (.store target rs) →
    v.state.address target = .ok a →
      (∀ w, ∃ memory, v.state.memory.write a w = .ok memory) ∧
        ∀ sum operand, (v.execution p).result ≠ .error (.invalidAddress sum operand)
  same : ∀ fault, (∀ source target, fault ≠ .tooManyJumps source target) →
    ((v.execution p).result = .error fault ↔ (v.state.step p).1 = .error (.fault v.line fault))
  refused : ∀ source target, (v.execution p).result = .error (.tooManyJumps source target) →
    v.guard ≠ none ∧ ∀ line fault, (v.state.step p).1 ≠ .error (.fault line fault)

/-- **A line of the program is settled** under a guard that has been made for the program, and without a
guard. -/
theorem Visit.settled {p : Program} (hp : p.Indexed) {v : Visit} (hline : v.line < p.size)
    (hguard : ∀ g, v.guard = some g → g.Fits p) : v.Settled p where
  recorded g j hg hj := by
    obtain ⟨hsource, _, heffect⟩ := Program.effectAt_of_jump? hj
    have htarget : j.target ≤ p.size := Program.target_le_of_effectAt hp heffect
    have hrange : g.tally.InRange j := by
      rw [JumpTally.InRange, hguard g hg]
      omega
    rw [JumpTally.record_of_inRange hrange]
    split
    · exact .inr rfl
    · exact .inl rfl
  outOfRange w := by
    rw [execution, State.result_dispatch_eq_error_iff hp hguard hline (by simp),
      Program.effectAt_eq_error_iff]
    simp only [Instruction.effect_eq_jumpOutOfRange_iff]
    constructor
    · rintro ⟨_, hi, linking, rs, rfl, hw⟩
      exact ⟨linking, rs, hi, hw⟩
    · rintro ⟨linking, rs, hi, hw⟩
      exact ⟨_, hi, linking, rs, rfl, hw⟩
  written target rs a hi haddress := by
    obtain ⟨_, _, _, haligned⟩ := (State.address_eq_ok_iff ..).1 haddress
    refine ⟨fun w => ⟨_, Memory.write_of_isAligned haligned w⟩, fun sum operand h => ?_⟩
    rw [execution, State.result_dispatch_eq_error_iff hp hguard hline (by simp),
      Program.effectAt_eq_error_iff] at h
    obtain ⟨_, hi', heffect⟩ := h
    obtain rfl := Option.some.inj (hi.symm.trans hi')
    exact absurd (Instruction.noValue_of_effect_store haddress heffect) (by simp)
  same fault hfault := by
    rw [execution, State.result_dispatch_eq_error_iff hp hguard hline hfault,
      State.step_eq_fault_iff hline]
    exact (and_iff_right rfl).symm
  refused source target h := by
    refine ⟨State.guard_ne_none_of_refused h, fun line fault hstep => ?_⟩
    exact State.effectAt_ne_error_of_refused h ((State.step_eq_fault_iff hline ..).1 hstep).2

/-- **The guard of a run fits at every line of its log**, if it fits at the first one; and all of them are
lines of the program. -/
theorem State.fits_of_mem_log {p : Program} (hp : p.Indexed) {left steps : Nat}
    {guard : Option JumpGuard} {s : State} {v : Visit} (hv : v ∈ s.log p left steps guard)
    {g : JumpGuard} (hguard : guard = some g) (hg : g.Fits p) :
    v.line < p.size ∧ ∃ g', v.guard = some g' ∧ g'.Fits p := by
  -- On the lines that may be dispatched; a line that has no fault hands on a guard that fits.
  induction left generalizing steps guard s g with
  | zero => exact absurd hv (by simp [log])
  | succ left ih =>
    subst hguard
    obtain ⟨⟨l, hl, -⟩, rfl | ⟨t, _, he, -, hrest⟩⟩ := mem_log_iff.1 hv
    · exact ⟨Program.lt_size_of_line? hl, g, rfl, hg⟩
    · obtain ⟨-, g', hg', rfl⟩ := dispatch_none_of_ok hp hg (Program.lt_size_of_line? hl) he
      exact ih hrest rfl hg'

/-! ## §3 On a machine -/

namespace Machine

/-- The line that a machine dispatches when it takes a step. -/
def visit? (m : Machine) : Option Visit :=
  m.program.bind fun p =>
    if (m.state.wrapped p).pc < p.size then some ⟨m.state.wrapped p, none⟩ else none

/-- The machine dispatches the line when it runs or when it takes a step. -/
def Dispatches (m : Machine) (v : Visit) : Prop :=
  v ∈ m.log ∨ v ∈ m.visit?

section

variable {m : Machine} {p : Program}

theorem mem_visit?_iff (hprogram : m.program = some p) (v : Visit) :
    v ∈ m.visit? ↔ v = ⟨m.state.wrapped p, none⟩ ∧ v.line < p.size := by
  rw [visit?, hprogram, Option.bind_some]
  by_cases hpc : (m.state.wrapped p).pc < p.size
  · rw [if_pos hpc]
    constructor
    · rintro ⟨⟩
      exact ⟨rfl, hpc⟩
    · rintro ⟨rfl, -⟩
      rfl
  · rw [if_neg hpc]
    constructor
    · intro h
      exact absurd h (by simp)
    · rintro ⟨rfl, hline⟩
      exact absurd hline hpc

/-- A run reports a fault exactly if a line that it dispatches has that fault. -/
theorem perform_run_eq_fault_iff (hprogram : m.program = some p) (line : Nat) (fault : Fault) :
    (m.perform run).1 = .error (.fault line fault) ↔
      ∃ v ∈ m.log, v.line = line ∧ (v.execution p).result = .error fault := by
  obtain ⟨program, s, b⟩ := m
  obtain rfl : program = some p := hprogram
  rw [perform_run]
  exact (State.runs_runFrom p _ _ 0 _ _).fault_iff line fault

/-- A step reports a fault exactly if the line that it dispatches has that fault. -/
theorem perform_step_eq_fault_iff (hprogram : m.program = some p) (line : Nat) (fault : Fault) :
    (m.perform step).1 = .error (.fault line fault) ↔
      ∃ v ∈ m.visit?, v.line = line ∧ (v.execution p).result = .error fault := by
  have hvisit := mem_visit?_iff hprogram
  obtain ⟨program, s, b⟩ := m
  obtain rfl : program = some p := hprogram
  simp only [hvisit]
  rw [perform_step, ← State.step_wrapped]
  by_cases hpc : (s.wrapped p).pc < p.size
  · rw [State.step_eq_fault_iff hpc]
    constructor
    · rintro ⟨rfl, heffect⟩
      exact ⟨_, ⟨rfl, hpc⟩, rfl, (State.dispatch_none_eq_error_iff ..).2 heffect⟩
    · rintro ⟨_, ⟨rfl, -⟩, rfl, hresult⟩
      exact ⟨rfl, (State.dispatch_none_eq_error_iff ..).1 hresult⟩
  · -- There is no line at all, and a step reports just that.
    have hmissing : p.line? (s.wrapped p).pc = none :=
      Option.eq_none_iff_forall_ne_some.2 fun l hl => hpc (Program.lt_size_of_line? hl)
    rw [State.step_of_missing (State.wrapped_wrapped p s) hmissing]
    constructor
    · intro h
      exact absurd h (by simp)
    · rintro ⟨_, ⟨rfl, hline⟩, -⟩
      exact absurd hline hpc

/-- **Every line that a machine dispatches is settled**, be it in a run or in a step. -/
theorem Dispatches.settled (hm : m.Reachable) (hprogram : m.program = some p)
    (hsize : p.size < JumpTally.greatestIndex) {v : Visit} (hv : m.Dispatches v) : v.Settled p := by
  have hp : p.Indexed := (hm.sound.built p hprogram).indexed
  rcases hv with hlog | hstep
  · rw [log, hprogram] at hlog
    obtain ⟨hline, g, hguard, hg⟩ :=
      State.fits_of_mem_log hp hlog rfl (JumpGuard.fits_start hsize _)
    refine Visit.settled hp hline fun g' hg' => ?_
    obtain rfl := Option.some.inj (hguard.symm.trans hg')
    exact hg
  · obtain ⟨rfl, hline⟩ := (mem_visit?_iff hprogram v).1 hstep
    exact Visit.settled hp hline fun g hg => absurd hg (by simp)

/-- **Faults come from what a line reads, in runs and in steps alike.** At every line that a machine
dispatches, whatever the commands that have given the machine, the guard of a run knows both lines of a
jump, memory takes the word of a store that has an address, and a jump is out of range exactly if it is one
through a register whose word is no index of a line. A run and a step report the faults of the lines that
they dispatch. So a run reports a fault that is not a refused jump exactly if a step from the state of one
of its lines reports the same fault at the same line. The lines of the program have 64-bit indices. -/
theorem settled_run_step (hm : m.Reachable) (hprogram : m.program = some p)
    (hsize : p.size < JumpTally.greatestIndex) :
    (∀ v, m.Dispatches v → v.Settled p) ∧
    (∀ line fault, (m.perform run).1 = .error (.fault line fault) ↔
      ∃ v ∈ m.log, v.line = line ∧ (v.execution p).result = .error fault) ∧
    (∀ line fault, (m.perform step).1 = .error (.fault line fault) ↔
      ∃ v ∈ m.visit?, v.line = line ∧ (v.execution p).result = .error fault) ∧
    ∀ line fault, (∀ source target, fault ≠ .tooManyJumps source target) →
      ((m.perform run).1 = .error (.fault line fault) ↔
        ∃ v ∈ m.log, v.line = line ∧
          ({ m with state := v.state }.perform step).1 = .error (.fault line fault)) := by
  have hsettled (v : Visit) (hv : m.Dispatches v) : v.Settled p := hv.settled hm hprogram hsize
  refine ⟨hsettled, perform_run_eq_fault_iff hprogram, perform_step_eq_fault_iff hprogram, ?_⟩
  intro line fault hfault
  rw [perform_run_eq_fault_iff hprogram]
  refine exists_congr fun v => and_congr_right fun hv => and_congr_right ?_
  rintro rfl
  obtain ⟨program, s, b⟩ := m
  obtain rfl : program = some p := hprogram
  rw [perform_step]
  exact (hsettled v (.inl hv)).same fault hfault

end

/-- A program that jumps to a line, stores a word there, and then jumps far away. -/
def straying : Program :=
  .ofLines [
    ⟨none, false, some (.jump false "Out")⟩,
    ⟨some "Out", false, some (.store ⟨8, .zero⟩ .zero)⟩,
    ⟨none, false, some (.immediate .add .link .zero 9)⟩,
    ⟨none, false, some (.jumpRegister true .link)⟩]

/-- The machine at the first line of that program. -/
def strayer : Machine :=
  (initial.obey (.load straying)).2

theorem reachable_strayer : strayer.Reachable :=
  .obey .initial (.ofLines _)

/-- The run that strays reports the word of the register through which it jumps, and so does a step from
where it strays. The tally has known the lines of the jump before that. -/
theorem settled_run_step_strayer :
    (strayer.Reachable ∧ strayer.program = some straying ∧ straying.size < JumpTally.greatestIndex) ∧
      (strayer.perform run).1 = .error (.fault 3 (.jumpOutOfRange 9)) ∧
      (∃ v ∈ strayer.log, v.line = 3 ∧
        (∃ linking rs, straying.instruction? v.line = some (.jumpRegister linking rs) ∧
          v.state.registers.read rs = some 9) ∧
        ({ strayer with state := v.state }.perform step).1 = .error (.fault 3 (.jumpOutOfRange 9))) ∧
      ∃ v ∈ strayer.log, ∃ g, v.guard = some g ∧ v.attempt? straying = some ⟨0, 1⟩ ∧
        ∀ w, (g.tally.record ⟨0, 1⟩ g.limit).1 ≠ .error (.jumpOutOfRange w) := by
  have hsize : straying.size < JumpTally.greatestIndex := by decide
  obtain ⟨hsettled, hrun, -, -⟩ := settled_run_step reachable_strayer (p := straying) rfl hsize
  have hfault : (strayer.perform run).1 = .error (.fault 3 (.jumpOutOfRange 9)) := rfl
  refine ⟨⟨reachable_strayer, rfl, hsize⟩, hfault, ?_, ?_⟩
  · obtain ⟨v, hv, hline, hresult⟩ := (hrun 3 (.jumpOutOfRange 9)).1 hfault
    obtain ⟨linking, rs, hi, hread, -⟩ := ((hsettled v (.inl hv)).outOfRange 9).1 hresult
    refine ⟨v, hv, hline, ⟨linking, rs, hi, hread⟩, ?_⟩
    show ((⟨some straying, v.state, strayer.budget⟩ : Machine).perform step).1 = _
    rw [perform_step, ← hline]
    exact ((hsettled v (.inl hv)).same _ (by simp)).1 hresult
  · -- This jump is the first thing that the run does.
    have hfirst : (⟨strayer.state, some (.start 4 1000)⟩ : Visit) ∈ strayer.log := by
      show _ ∈ strayer.state.log straying (9999 + 1) 0 _
      exact State.mem_log_iff.2 ⟨by decide, .inl rfl⟩
    refine ⟨_, hfirst, _, rfl, rfl, fun w hw => ?_⟩
    obtain hverdict | hverdict := (hsettled _ (.inl hfirst)).recorded _ ⟨0, 1⟩ rfl rfl
    · exact absurd (hverdict.symm.trans hw) (by simp)
    · exact absurd (hverdict.symm.trans hw) (by simp)

end Machine

end Dlx
