import Dlx.Proofs.Machine.Runaway

/-!
# Programs without loops

A program that only jumps forwards runs every line at most once, whatever state it starts from. It
therefore needs no more steps than it has lines, and no jump twice: neither number of the budget ends its
runs, if there are as many steps as lines and one jump is allowed.

- **§1** programs without loops (`Program.LoopFree`), and where their lines lead
- **§2** the log of a run ascends
- **§3** neither guard fires
-/

namespace Dlx

/-! ## §1 Programs without loops -/

/-- An instruction in a line does not go on at a line that only a register knows, and if the label to
which it refers is that of a line, it is that of a later one. -/
def Instruction.Descends (p : Program) (line : Nat) : Instruction → Prop
  | .branch _ _ label | .jump _ label => ∀ target ∈ p.resolve? label, line < target
  | .jumpRegister _ _ => False
  | _ => True

instance (p : Program) (line : Nat) : (i : Instruction) → Decidable (i.Descends p line)
  | .branch _ _ label | .jump _ label =>
    inferInstanceAs (Decidable (∀ target ∈ p.resolve? label, line < target))
  | .jumpRegister _ _ => inferInstanceAs (Decidable False)
  | .load _ _ | .store _ _ | .register _ _ _ _ | .immediate _ _ _ _ | .halt =>
    inferInstanceAs (Decidable True)

theorem Instruction.Descends.lt {p : Program} {line : Nat} {i : Instruction} (h : i.Descends p line)
    {label : String} {target : Nat} (hlabel : i.label? = some label)
    (htarget : p.resolve? label = some target) : line < target := by
  cases i with
  | branch condition rs own =>
    obtain rfl := Option.some.inj hlabel
    exact h target htarget
  | jump linking own =>
    obtain rfl := Option.some.inj hlabel
    exact h target htarget
  | load | store | register | immediate | jumpRegister | halt => exact absurd hlabel (by simp [label?])

/-- All instructions of a program can only go on further below. -/
def Program.LoopFree (p : Program) : Prop :=
  ∀ line, ∀ i ∈ p.instruction? line, i.Descends p line

namespace Program.LoopFree

variable {p : Program}

/-- It is enough to look at the lines that there are. -/
theorem of_lines (h : ∀ line < p.size, ∀ i ∈ p.instruction? line, i.Descends p line) :
    p.LoopFree := by
  intro line i hi
  obtain ⟨l, hl, -⟩ := (p.instruction?_eq_some_iff line i).1 hi
  exact h line (lt_size_of_line? hl) i hi

instance (p : Program) : Decidable p.LoopFree :=
  decidable_of_iff (∀ line < p.size, ∀ i ∈ p.instruction? line, i.Descends p line)
    ⟨of_lines, fun h line _ => h line⟩

/-- A line jumps forwards if it jumps at all. -/
theorem lt_of_effectAt (hfree : p.LoopFree) {s : State} {line target : Nat} {linking : Bool}
    (h : p.effectAt s line = .ok (.jump target linking)) : line < target := by
  rw [effectAt] at h
  split at h
  · exact absurd h (by simp)
  · rename_i i hi
    have hdescends := hfree line i hi
    rcases Instruction.target_of_effect h with ⟨label, hlabel, htarget⟩ | ⟨rs, w, rfl, -⟩
    · exact hdescends.lt hlabel htarget
    · exact hdescends.elim

/-- **After a line the program goes on further below.** -/
theorem lt_of_dispatch (hfree : p.LoopFree) {s t : State} {line : Nat} {guard g : Option JumpGuard}
    (h : s.dispatch p line guard = ⟨.ok .next, t, g⟩) : line < t.pc := by
  obtain ⟨e, heffect, rfl⟩ := State.applied_of_dispatch h
  cases e with
  | jump target linking => exact hfree.lt_of_effectAt heffect
  | write | store | pass | halt =>
    -- The line below is next.
    exact Nat.lt_succ_self line

end Program.LoopFree

/-! ## §2 Ascending logs -/

/-- Every line is further below than those before it. -/
def Ascending (visits : List Visit) : Prop :=
  visits.Pairwise fun v w => v.line < w.line

/-- **The run of a program without loops goes downwards only**, from the line at which it starts. -/
theorem State.ascending_log {p : Program} (hfree : p.LoopFree) (left steps : Nat)
    (guard : Option JumpGuard) (s : State) :
    Ascending (s.log p left steps guard) ∧ ∀ v ∈ s.log p left steps guard, s.pc ≤ v.line := by
  -- On the lines that may be dispatched; what comes after a line starts below it.
  induction left generalizing steps guard s with
  | zero => exact ⟨.nil, by simp [log]⟩
  | succ left ih =>
    obtain ⟨-, hlog⟩ | ⟨-, -, hlog⟩ | ⟨t, g, -, he, -, hlog⟩ := log_cases p left steps guard s
    · rw [hlog]
      exact ⟨.nil, by simp⟩
    · rw [hlog]
      exact ⟨List.pairwise_singleton _ _, by simp [Visit.line]⟩
    · obtain ⟨hascending, hle⟩ := ih (steps + 1) g t
      have hlt : ∀ v ∈ t.log p left (steps + 1) g, s.pc < v.line := fun v hv =>
        Nat.lt_of_lt_of_le (hfree.lt_of_dispatch he) (hle v hv)
      rw [hlog]
      refine ⟨List.pairwise_cons.2 ⟨hlt, hascending⟩, ?_⟩
      exact List.forall_mem_cons.2 ⟨Nat.le_refl s.pc, fun v hv => Nat.le_of_lt (hlt v hv)⟩

namespace Ascending

variable {p : Program} {visits : List Visit}

/-- There are no more lines that ascend than there are numbers between two bounds. -/
theorem length_le (h : Ascending visits) {low high : Nat}
    (hbounds : ∀ v ∈ visits, low ≤ v.line ∧ v.line < high) : visits.length ≤ high - low := by
  induction visits generalizing low with
  | nil => exact Nat.zero_le _
  | cons v visits ih =>
    obtain ⟨hlt, hascending⟩ := List.pairwise_cons.1 h
    obtain ⟨hv, hvisits⟩ := List.forall_mem_cons.1 hbounds
    have hrest : visits.length ≤ high - (v.line + 1) :=
      ih hascending fun w hw => ⟨hlt w hw, (hvisits w hw).2⟩
    rw [List.length_cons]
    omega

/-- A program without loops does not go on after as many lines as it has. -/
theorem length_lt_size (h : Ascending visits) (hfree : p.LoopFree) (hne : visits ≠ [])
    (hcontinues : ∀ v ∈ visits, v.Continues p) : visits.length < p.size := by
  -- The line after each of them is a line of the program as well.
  have hline : ∀ v ∈ visits, v.line + 1 < p.size := by
    intro v hv
    obtain ⟨t, g, he, hpc⟩ := hcontinues v hv
    exact Nat.lt_of_le_of_lt (hfree.lt_of_dispatch he) hpc
  obtain ⟨first, hfirst⟩ := List.exists_mem_of_ne_nil visits hne
  have hpos := hline first hfirst
  have hle : visits.length ≤ p.size - 1 - 0 :=
    h.length_le fun v hv => ⟨Nat.zero_le _, Nat.lt_sub_of_add_lt (hline v hv)⟩
  omega

/-- No jump is attempted that has been taken before. -/
theorem not_overtaken (h : Ascending visits) {jumps : Nat} (hjumps : 0 < jumps) (j : Jump) :
    ¬ Overtaken p jumps [] visits j := by
  rintro ⟨front, v, rest, rfl, hattempt, hcount⟩
  rw [List.nil_append] at hcount
  have hmem : j ∈ takenJumps p front := List.count_pos_iff.1 (hcount ▸ hjumps)
  obtain ⟨w, hw, htaken⟩ := List.mem_filterMap.1 hmem
  -- Both lines are the source of the jump, but one of them comes after the other.
  have hsource : w.line = v.line :=
    (Visit.source_of_attempt? (Visit.attempt?_of_taken? htaken)).symm.trans
      (Visit.source_of_attempt? hattempt)
  have hlt : w.line < v.line :=
    (List.pairwise_append.1 h).2.2 w hw v List.mem_cons_self
  omega

end Ascending

/-! ## §3 Budgets of programs without loops -/

/-- **The guards never fire in a program without loops.** If every label to which a line refers is that
of a later line, and no line jumps through a register, then a run from any state dispatches its lines in
ascending order. With as many steps as the program has lines, and one jump, neither their number nor that
of a jump ends the run. -/
theorem Machine.run_of_loopFree (m : Machine) (p : Program) (hprogram : m.program = some p)
    (hfree : p.LoopFree) (hbudget : m.budget.check = .ok ())
    (hsteps : p.size ≤ m.budget.maxSteps.toNat) :
    Ascending m.log ∧
    (∀ limit, (m.perform run).1 ≠ .error (.tooManySteps limit)) ∧
    ∀ line source target,
      (m.perform run).1 ≠ .error (.fault line (.tooManyJumps source target)) := by
  obtain ⟨program, s, b⟩ := m
  obtain rfl : program = some p := hprogram
  obtain ⟨hpositive, hjumps⟩ := Budget.pos_of_check hbudget
  have hascending : Ascending (⟨some p, s, b⟩ : Machine).log := (State.ascending_log hfree ..).1
  have hkept := State.kept_run p s hbudget
  rw [perform_run]
  refine ⟨hascending, ?_, ?_⟩
  · intro limit hlimit
    obtain ⟨-, hlength, hcontinues⟩ := (hkept.tooManySteps_iff limit).1 hlimit
    have hne : (⟨some p, s, b⟩ : Machine).log ≠ [] := List.ne_nil_of_length_pos (hlength ▸ hpositive)
    have hlt := hascending.length_lt_size hfree hne hcontinues
    exact absurd (hlength ▸ hlt) (Nat.not_lt.2 hsteps)
  · intro line source target hfault
    exact hascending.not_overtaken hjumps ⟨source, target⟩
      ((hkept.tooManyJumps_iff source target).1 ⟨line, hfault⟩)

/-- A program that jumps from each line to the next one and has no line that halts. -/
def stairs : Program :=
  .ofLines [
    ⟨none, false, some (.branch .zero .zero "Half")⟩,
    ⟨some "Half", false, some (.jump true "Foot")⟩,
    ⟨some "Foot", false, none⟩]

theorem run_of_loopFree_stairs :
    (stairs.LoopFree ∧ Budget.check ⟨3, 1⟩ = .ok () ∧ stairs.size = 3) ∧
    ((⟨some stairs, .initial, ⟨3, 1⟩⟩ : Machine).perform Machine.run).1 = .error .haltNotFound ∧
    (⟨some stairs, .initial, ⟨3, 1⟩⟩ : Machine).log.length = 3 ∧
    Ascending (⟨some stairs, .initial, ⟨3, 1⟩⟩ : Machine).log ∧
    (∀ limit, ((⟨some stairs, .initial, ⟨3, 1⟩⟩ : Machine).perform Machine.run).1 ≠
      .error (.tooManySteps limit)) ∧
    ∀ line source target, ((⟨some stairs, .initial, ⟨3, 1⟩⟩ : Machine).perform Machine.run).1 ≠
      .error (.fault line (.tooManyJumps source target)) :=
  ⟨⟨by decide, rfl, rfl⟩, rfl, rfl,
    Machine.run_of_loopFree ⟨some stairs, .initial, ⟨3, 1⟩⟩ stairs rfl (by decide) rfl (by decide)⟩

/-- With one step less the run does not get past the last line. -/
example : ((⟨some stairs, .initial, ⟨2, 1⟩⟩ : Machine).perform Machine.run).1 =
    .error (.tooManySteps 2) := rfl

end Dlx
