import Dlx.Proofs.Machine.Cells
import Dlx.Proofs.Machine.Lockstep

/-!
# Filling empty cells

An empty cell is not a cell with some word in it: an instruction that needs its word fails, and no
instruction finds out in any other way that it is empty. So what a program does without missing a word it
does as well if cells that were empty are filled, and whatever it had found or put in a cell is there.

- **§1** outcomes that agree unless a word is missing (`Agree`)
- **§2** a state of which some empty cells have been filled (`State.Fills`), and what an instruction reads
- **§3** one line
- **§4** runs and steps
- **§5** on a machine
-/

namespace Dlx

/-! ## §1 Outcomes -/

section

variable {α β : Type}

/-- The outcome is that a word is missing. -/
def Missing (x : Except Fault α) : Prop :=
  ∃ cell, x = .error (.noValue cell)

theorem not_missing_ok (a : α) : ¬ Missing (.ok a) := by
  rintro ⟨cell, heq⟩
  exact absurd heq (by simp)

/-- If what is reported of a line is not that a word is missing, then none is. -/
theorem not_missing_error {here : Nat} {fault : Fault}
    (h : ∀ line cell, (.error (.fault here fault) : Except MachineError β) ≠
      .error (.fault line (.noValue cell))) : ¬ Missing (.error fault : Except Fault α) := by
  rintro ⟨cell, heq⟩
  obtain rfl := Except.error.inj heq
  exact h here cell rfl

/-- The second outcome is the first one, unless a word is missing in the first one. -/
def Agree (x y : Except Fault α) : Prop :=
  Missing x ∨ y = x

theorem Agree.refl (x : Except Fault α) : Agree x x :=
  .inr rfl

/-- What is done with what has been read does not matter, if it is the same. -/
theorem Agree.bind {x y : Except Fault α} (h : Agree x y) {f g : α → Except Fault β}
    (hrest : ∀ a, Agree (f a) (g a)) : Agree (x >>= f) (y >>= g) := by
  rcases h with ⟨cell, rfl⟩ | rfl
  · exact .inl ⟨cell, rfl⟩
  · cases y with
    | error fault => exact .refl _
    | ok a => exact hrest a

end

/-! ## §2 Filled states -/

namespace State

/-- The same line is next, and whatever a cell held it still holds. Cells that were empty may hold any
word. -/
structure Fills (t s : State) : Prop where
  pc : t.pc = s.pc
  read : ∀ cell w, s.read cell = some w → t.read cell = some w

section

variable {s t : State} {p : Program}

theorem Fills.goto (h : t.Fills s) (line : Nat) : (t.goto line).Fills (s.goto line) where
  pc := rfl
  read cell w hw := by
    rw [read_goto] at hw ⊢
    exact h.read cell w hw

theorem Fills.wrapped (h : t.Fills s) (p : Program) : (t.wrapped p).Fills (s.wrapped p) := by
  unfold State.wrapped
  rw [h.pc]
  split
  · exact h
  · exact h.goto 0

theorem Fills.fetch (h : t.Fills s) (r : Register) : Agree (s.fetch r) (t.fetch r) := by
  cases hread : s.registers.read r with
  | none => exact .inl ⟨.register r, (s.fetch_eq_error_iff r _).2 ⟨hread, rfl⟩⟩
  | some w =>
    have hfilled : t.registers.read r = some w := h.read (.register r) w hread
    right
    rw [(s.fetch_eq_ok_iff r w).2 hread, (t.fetch_eq_ok_iff r w).2 hfilled]

theorem Fills.fetchMemory (h : t.Fills s) (a : Address) :
    Agree (s.fetchMemory a) (t.fetchMemory a) := by
  cases hread : s.memory.read a with
  | none => exact .inl ⟨.memory a, (s.fetchMemory_eq_error_iff a _).2 ⟨hread, rfl⟩⟩
  | some w =>
    have hfilled : t.memory.read a = some w := h.read (.memory a) w hread
    right
    rw [(s.fetchMemory_eq_ok_iff a w).2 hread, (t.fetchMemory_eq_ok_iff a w).2 hfilled]

/-- Once the base is known, the address is arithmetic. -/
theorem Fills.address (h : t.Fills s) (operand : Indirect) :
    Agree (s.address operand) (t.address operand) :=
  (h.fetch operand.base).bind fun _ => .refl _

/-- **An instruction that misses no word has the same effect, or the same fault, in a filled state.** -/
theorem Fills.effect (h : t.Fills s) (i : Instruction) : Agree (i.effect p s) (i.effect p t) := by
  cases i with
  | load rd source => exact (h.address source).bind fun a => (h.fetchMemory a).bind fun _ => .refl _
  | store target rs => exact (h.address target).bind fun _ => (h.fetch rs).bind fun _ => .refl _
  | register op rd rs1 rs2 => exact (h.fetch rs1).bind fun _ => (h.fetch rs2).bind fun _ => .refl _
  | immediate op rd rs1 value => exact (h.fetch rs1).bind fun _ => .refl _
  | branch condition rs label =>
    -- The line of the label is read off the program, which is the same.
    exact (Agree.refl (p.find label)).bind fun _ => (h.fetch rs).bind fun _ => .refl _
  | jump linking label => exact .refl _
  | jumpRegister linking rs => exact (h.fetch rs).bind fun _ => .refl _
  | halt => exact .refl _

theorem Fills.effectAt (h : t.Fills s) (line : Nat) :
    Agree (p.effectAt s line) (p.effectAt t line) := by
  unfold Program.effectAt
  split
  · exact .refl _
  · exact h.effect _

/-! ## §3 One line -/

/-- Lines with the same effect go on in the same way, whatever the states are. -/
theorem dispatch_congr {line : Nat} (h : p.effectAt t line = p.effectAt s line)
    (guard : Option JumpGuard) :
    (t.dispatch p line guard).result = (s.dispatch p line guard).result ∧
      (t.dispatch p line guard).state.pc = (s.dispatch p line guard).state.pc ∧
      (t.dispatch p line guard).guard = (s.dispatch p line guard).guard := by
  rw [dispatch_eq, dispatch_eq, h]
  cases p.effectAt s line with
  | error fault => exact ⟨rfl, rfl, rfl⟩
  | ok e =>
    cases e with
    | jump target linking =>
      dsimp only
      cases countJump ⟨line, target⟩ guard with
      | mk verdict g => cases verdict <;> exact ⟨rfl, rfl, rfl⟩
    | write | store | pass | halt => exact ⟨rfl, rfl, rfl⟩

/-- **A line that misses no word does the same in a filled state**, and leaves a filled state. -/
theorem Fills.dispatch (h : t.Fills s) {line : Nat} {guard g : Option JumpGuard} {s' : State}
    {result : Except Fault Flow} (he : s.dispatch p line guard = ⟨result, s', g⟩)
    (hresult : ¬ Missing result) :
    ∃ t', t'.Fills s' ∧ t.dispatch p line guard = ⟨result, t', g⟩ := by
  have heffect : p.effectAt t line = p.effectAt s line := by
    rcases h.effectAt (p := p) line with ⟨cell, hmissing⟩ | hsame
    · rw [dispatch_eq, hmissing] at he
      exact absurd ⟨cell, (Execution.mk.inj he).1.symm⟩ hresult
    · exact hsame
  obtain ⟨hsame, hpc, hguard⟩ := dispatch_congr heffect guard
  rcases ht : t.dispatch p line guard with ⟨result', t', g'⟩
  rw [ht, he] at hsame hpc hguard
  obtain rfl : result' = result := hsame
  obtain rfl : g' = g := hguard
  refine ⟨t', ⟨hpc, ?_⟩, rfl⟩
  intro cell w hw
  cases result' with
  | error fault =>
    -- After a fault nothing has changed in either state.
    rw [eq_goto_of_dispatch_error he, read_goto] at hw
    rw [eq_goto_of_dispatch_error ht, read_goto]
    exact h.read cell w hw
  | ok flow =>
    obtain ⟨e, hs, hread⟩ := read_of_dispatch_ok he
    obtain ⟨e', ht', hread'⟩ := read_of_dispatch_ok ht
    obtain rfl : e' = e := Except.ok.inj (ht'.symm.trans (heffect.trans hs))
    rw [hread] at hw
    rw [hread']
    obtain hkept | ⟨v, hwritten⟩ := e'.update_cases line cell
    · rw [hkept] at hw ⊢
      exact h.read cell w hw
    · rw [hwritten] at hw ⊢
      exact hw

/-! ## §4 Runs and steps -/

theorem Fills.dispatches (h : t.Fills s) {steps : Nat} (hs : s.Dispatches p steps) :
    t.Dispatches p steps := by
  rwa [Dispatches, h.pc]

/-- **A run that misses no word is a run from every filled state**, and leaves a filled state. -/
theorem Runs.of_fills {limit left steps : Nat} {guard : Option JumpGuard} {s' : State}
    {stop : Except MachineError Stop} (hruns : Runs p limit left steps guard s stop s')
    (h : t.Fills s) (hstop : ∀ line cell, stop ≠ .error (.fault line (.noValue cell))) :
    ∃ t', t'.Fills s' ∧ Runs p limit left steps guard t stop t' := by
  -- On the run; the filled state stays one line by line.
  induction hruns generalizing t with
  | exhausted => exact ⟨t, h, .exhausted⟩
  | missing hl => exact ⟨t.goto 0, h.goto 0, .missing (by rwa [h.pc])⟩
  | paused hl hbreakpoint hsteps =>
    rw [← h.pc] at hl ⊢
    exact ⟨t, h, .paused hl hbreakpoint hsteps⟩
  | @faulted left steps guard g s s' fault hdispatches he =>
    have hmissing : ¬ Missing (.error fault : Except Fault Flow) := not_missing_error hstop
    rw [← h.pc] at he ⊢
    obtain ⟨t', ht', he'⟩ := h.dispatch he hmissing
    exact ⟨t', ht', .faulted (h.dispatches hdispatches) he'⟩
  | @halted left steps guard g s s' hdispatches he =>
    rw [← h.pc] at he
    obtain ⟨t', ht', he'⟩ := h.dispatch he (not_missing_ok _)
    exact ⟨t'.goto 0, ht'.goto 0, .halted (h.dispatches hdispatches) he'⟩
  | @ranOut left steps guard g s s' hdispatches he hpc =>
    rw [← h.pc] at he
    obtain ⟨t', ht', he'⟩ := h.dispatch he (not_missing_ok _)
    rw [← ht'.pc] at hpc
    exact ⟨t'.goto 0, ht'.goto 0, .ranOut (h.dispatches hdispatches) he' hpc⟩
  | @advanced left steps guard g s s' u stop hdispatches he hpc _ ih =>
    rw [← h.pc] at he
    obtain ⟨t', ht', he'⟩ := h.dispatch he (not_missing_ok _)
    obtain ⟨u', hu', hrest⟩ := ih ht' hstop
    rw [← ht'.pc] at hpc
    exact ⟨u', hu', .advanced (h.dispatches hdispatches) he' hpc hrest⟩

/-- A run of a program under a budget. -/
theorem Fills.run (h : t.Fills s) {b : Budget}
    (hstop : ∀ line cell, (s.run p b).1 ≠ .error (.fault line (.noValue cell))) :
    (t.run p b).1 = (s.run p b).1 ∧ (t.run p b).2.Fills (s.run p b).2 := by
  have hruns := runs_runFrom p b.maxSteps.toNat b.maxSteps.toNat 0
    (some (.start p.size b.maxJumps.toNat)) (s.wrapped p)
  obtain ⟨t', hfills, hruns'⟩ := hruns.of_fills (h.wrapped p) hstop
  have hrun : t.run p b = ((s.run p b).1, t') := (runs_iff ..).1 hruns'
  rw [hrun]
  exact ⟨rfl, hfills⟩

/-- A step that misses no word is a step from every filled state, and leaves a filled state. -/
theorem Steps.of_fills {s' : State} {result : Except MachineError Tick} (hsteps : Steps p s result s')
    (h : t.Fills s) (hresult : ∀ line cell, result ≠ .error (.fault line (.noValue cell))) :
    ∃ t', t'.Fills s' ∧ Steps p t result t' := by
  cases hsteps with
  | missing hl => exact ⟨t, h, .missing (by rwa [h.pc])⟩
  | @faulted l g s' fault hl he =>
    have hmissing : ¬ Missing (.error fault : Except Fault Flow) := not_missing_error hresult
    rw [← h.pc] at hl he ⊢
    obtain ⟨t', ht', he'⟩ := h.dispatch he hmissing
    exact ⟨t', ht', .faulted hl he'⟩
  | halted hl he =>
    rw [← h.pc] at hl he ⊢
    obtain ⟨t', ht', he'⟩ := h.dispatch he (not_missing_ok _)
    exact ⟨t'.goto 0, ht'.goto 0, .halted hl he'⟩
  | ranOut hl he hpc =>
    rw [← h.pc] at hl he
    obtain ⟨t', ht', he'⟩ := h.dispatch he (not_missing_ok _)
    rw [← ht'.pc] at hpc
    exact ⟨t'.goto 0, ht'.goto 0, .ranOut hl he' hpc⟩
  | stepped hl he hpc =>
    rw [← h.pc] at hl he ⊢
    obtain ⟨t', ht', he'⟩ := h.dispatch he (not_missing_ok _)
    rw [← ht'.pc] at hpc
    exact ⟨t', ht', .stepped hl he' hpc⟩

/-- A step of a program. -/
theorem Fills.step (h : t.Fills s)
    (hresult : ∀ line cell, (s.step p).1 ≠ .error (.fault line (.noValue cell))) :
    (t.step p).1 = (s.step p).1 ∧ (t.step p).2.Fills (s.step p).2 := by
  obtain ⟨t', hfills, hsteps⟩ := (steps_step p s).of_fills (h.wrapped p) hresult
  have hstep : t.step p = ((s.step p).1, t') := by
    rw [← step_wrapped]
    exact (steps_iff (wrapped_wrapped p t) _ _).1 hsteps
  rw [hstep]
  exact ⟨rfl, hfills⟩

end

end State

/-! ## §5 On a machine -/

namespace Machine

/-- The same program is loaded under the same budget, and some empty cells have been filled. -/
structure Fills (n m : Machine) : Prop where
  program : n.program = m.program
  budget : n.budget = m.budget
  state : n.state.Fills m.state

/-- **Filling empty cells changes no run and no step that did not miss them.** If a run, or a step, ends
otherwise than for want of a word, then after some empty cells have been filled it ends in the same way,
at the same line, and every cell that holds a word afterwards holds the same word. -/
theorem end_of_fills {m n : Machine} (h : n.Fills m) :
    ((∀ line cell, (m.perform run).1 ≠ .error (.fault line (.noValue cell))) →
      (n.perform run).1 = (m.perform run).1 ∧ (n.perform run).2.Fills (m.perform run).2) ∧
    ((∀ line cell, (m.perform step).1 ≠ .error (.fault line (.noValue cell))) →
      (n.perform step).1 = (m.perform step).1 ∧ (n.perform step).2.Fills (m.perform step).2) := by
  obtain ⟨program, s, b⟩ := m
  obtain ⟨program', t, b'⟩ := n
  obtain ⟨rfl, rfl, hfills⟩ := h
  cases program' with
  | none =>
    -- Without a program neither machine does anything.
    exact ⟨fun _ => ⟨rfl, rfl, rfl, hfills⟩, fun _ => ⟨rfl, rfl, rfl, hfills⟩⟩
  | some p =>
    rw [perform_run, perform_run, perform_step, perform_step]
    constructor
    · intro hstop
      obtain ⟨hsame, hleft⟩ := hfills.run hstop
      exact ⟨hsame, rfl, rfl, hleft⟩
    · intro hstop
      obtain ⟨hsame, hleft⟩ := hfills.step hstop
      exact ⟨hsame, rfl, rfl, hleft⟩

/-- A state in which the link and a memory cell hold a word. -/
def laden : State :=
  { State.initial.writeRegister .link 7 with memory := Memory.empty.put 1000 5 }

theorem fills_laden : laden.Fills .initial where
  pc := rfl
  read cell w hw := by
    -- Only `R0` holds a word at the start.
    cases cell with
    | memory a => simp [State.initial, State.read, Memory.empty, Memory.read] at hw
    | register r =>
      by_cases hr : r = .zero
      · rw [hr] at hw ⊢
        exact hw
      · have hempty : State.initial.read (.register r) = none := by
          simp [State.initial, State.read, RegisterFile.read, RegisterFile.empty, Register.isZero, hr]
        rw [hempty] at hw
        exact absurd hw (by simp)

theorem end_of_fills_countdown :
    (⟨some countdown, laden, .standard⟩ : Machine).Fills ⟨some countdown, .initial, .standard⟩ ∧
    ((⟨some countdown, .initial, .standard⟩ : Machine).perform run).1 = .ok (.completed 8) ∧
    ((⟨some countdown, laden, .standard⟩ : Machine).perform run).1 = .ok (.completed 8) ∧
    ((⟨some countdown, laden, .standard⟩ : Machine).perform run).2.state.read (.register .link) =
      some 0 ∧
    ((⟨some countdown, laden, .standard⟩ : Machine).perform run).2.state.read (.memory 1000) =
      some 5 ∧
    ((⟨some countdown, laden, .standard⟩ : Machine).perform step).1 =
      ((⟨some countdown, .initial, .standard⟩ : Machine).perform step).1 := by
  have hfills : (⟨some countdown, laden, .standard⟩ : Machine).Fills
      ⟨some countdown, .initial, .standard⟩ := ⟨rfl, rfl, fills_laden⟩
  obtain ⟨hrun, hstep⟩ := end_of_fills hfills
  have hcompleted : ((⟨some countdown, .initial, .standard⟩ : Machine).perform run).1 =
      .ok (.completed 8) := rfl
  obtain ⟨hsame, hleft⟩ := hrun (by simp [hcompleted])
  have hzero := hleft.state.read (.register .link) 0 rfl
  have hstepped : ((⟨some countdown, .initial, .standard⟩ : Machine).perform step).1 =
      .ok (.stepped 0) := rfl
  exact ⟨hfills, hcompleted, hsame.trans hcompleted, hzero, rfl, (hstep (by simp [hstepped])).1⟩

end Machine

end Dlx
