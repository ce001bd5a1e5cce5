import Dlx.Machine.Execution
import Dlx.Proofs.Program

/-!
# What one line does

Everything that a line of a program can do is said here once: which effect its instruction has and when
it has one, what its faults mean, and what dispatching the line leaves behind. All that is proved
about runs and steps rests on these equations.

- **§1** reading registers, memory, addresses and labels
- **§2** the effect of an instruction, and that its faults are true
- **§3** counting jumps
- **§4** dispatching a line
- **§5** what is left behind without a fault (`Effect.applied`)
-/

namespace Dlx

/-! ## §1 Reading -/

section Reading

variable {ε α β : Type}

theorem bind_eq_ok_iff (x : Except ε α) (f : α → Except ε β) (b : β) :
    x >>= f = .ok b ↔ ∃ a, x = .ok a ∧ f a = .ok b := by
  cases x <;> simp [bind, Except.bind]

theorem bind_eq_error_iff (x : Except ε α) (f : α → Except ε β) (e : ε) :
    x >>= f = .error e ↔ x = .error e ∨ ∃ a, x = .ok a ∧ f a = .error e := by
  cases x <;> simp [bind, Except.bind]

end Reading

namespace State

theorem fetch_eq_ok_iff (s : State) (r : Register) (w : Word) :
    s.fetch r = .ok w ↔ s.registers.read r = some w := by
  rw [fetch]
  cases s.registers.read r <;> simp

theorem fetch_eq_error_iff (s : State) (r : Register) (f : Fault) :
    s.fetch r = .error f ↔ s.registers.read r = none ∧ f = .noValue (.register r) := by
  rw [fetch]
  cases s.registers.read r <;> simp [eq_comm]

theorem fetchMemory_eq_ok_iff (s : State) (a : Address) (w : Word) :
    s.fetchMemory a = .ok w ↔ s.memory.read a = some w := by
  rw [fetchMemory]
  cases s.memory.read a <;> simp

theorem fetchMemory_eq_error_iff (s : State) (a : Address) (f : Fault) :
    s.fetchMemory a = .error f ↔ s.memory.read a = none ∧ f = .noValue (.memory a) := by
  rw [fetchMemory]
  cases s.memory.read a <;> simp [eq_comm]

/-- **An operand in memory has an address** exactly if its base holds a word and the sum of both, as
integers, is the value of a word at which a cell starts. -/
theorem address_eq_ok_iff (s : State) (operand : Indirect) (a : Address) :
    s.address operand = .ok a ↔
      ∃ base, s.registers.read operand.base = some base ∧
        a.toInt = operand.offset.toInt + base.toInt ∧ a.isAligned = true := by
  -- The base is fixed; what is left is a fact about the sum.
  simp only [address, bind_eq_ok_iff, fetch_eq_ok_iff]
  refine exists_congr fun base => and_congr_right fun _ => ?_
  rw [← Word.ofInt?_eq_some_iff]
  cases hsum : Word.ofInt? (operand.offset.toInt + base.toInt) with
  | none => simp [throw, throwThe, MonadExceptOf.throw]
  | some b =>
    by_cases hb : Address.isAligned b = true
    · simp only [Option.filter, hb, if_true, pure, Except.pure, Except.ok.injEq, Option.some.injEq]
      constructor
      · rintro rfl
        exact ⟨rfl, hb⟩
      · exact And.left
    · simp only [Option.filter, hb, throw, throwThe, MonadExceptOf.throw, Option.some.injEq]
      constructor
      · intro h
        exact absurd h (by simp)
      · rintro ⟨rfl, ha⟩
        exact absurd ha hb

theorem address_eq_error_iff (s : State) (operand : Indirect) (f : Fault) :
    s.address operand = .error f ↔
      (s.registers.read operand.base = none ∧ f = .noValue (.register operand.base)) ∨
        ∃ base, s.registers.read operand.base = some base ∧
          (Word.ofInt? (operand.offset.toInt + base.toInt)).filter Address.isAligned = none ∧
            f = .invalidAddress (operand.offset.toInt + base.toInt) operand := by
  simp only [address, bind_eq_error_iff, fetch_eq_ok_iff, fetch_eq_error_iff]
  refine or_congr Iff.rfl (exists_congr fun base => and_congr_right fun _ => ?_)
  cases (Word.ofInt? (operand.offset.toInt + base.toInt)).filter Address.isAligned with
  | none => simp [throw, throwThe, MonadExceptOf.throw, eq_comm]
  | some b => simp [pure, Except.pure]

end State

theorem Program.find_eq_ok_iff (p : Program) (label : String) (target : Nat) :
    p.find label = .ok target ↔ p.resolve? label = some target := by
  rw [find]
  cases p.resolve? label <;> simp

theorem Program.find_eq_error_iff (p : Program) (label : String) (f : Fault) :
    p.find label = .error f ↔ p.resolve? label = none ∧ f = .labelNotFound label := by
  rw [find]
  cases p.resolve? label <;> simp [eq_comm]

theorem Program.lineOfWord_eq_ok_iff (p : Program) (w : Word) (target : Nat) :
    p.lineOfWord w = .ok target ↔ w.toInt = target ∧ target ≤ p.size := by
  rw [lineOfWord]
  split
  · simp only [Except.ok.injEq]
    omega
  · simp only [reduceCtorEq, false_iff]
    omega

theorem Program.lineOfWord_eq_error_iff (p : Program) (w : Word) (f : Fault) :
    p.lineOfWord w = .error f ↔ ¬ (0 ≤ w.toInt ∧ w.toInt ≤ p.size) ∧ f = .jumpOutOfRange w := by
  rw [lineOfWord]
  split <;> simp_all [eq_comm]

/-! ## §2 Effects -/

/-- What must be there for an instruction to have an effect. -/
theorem Instruction.effect_eq_ok_iff (p : Program) (s : State) (i : Instruction) (e : Effect) :
    i.effect p s = .ok e ↔
      match i with
      | .load rd source =>
        ∃ a w, s.address source = .ok a ∧ s.memory.read a = some w ∧ e = .write rd w
      | .store target rs =>
        ∃ a w, s.address target = .ok a ∧ s.registers.read rs = some w ∧ e = .store target a w
      | .register op rd rs1 rs2 =>
        ∃ a b, s.registers.read rs1 = some a ∧ s.registers.read rs2 = some b ∧
          e = .write rd (op.eval a b)
      | .immediate op rd rs1 value =>
        ∃ a, s.registers.read rs1 = some a ∧ e = .write rd (op.eval a value)
      | .branch condition rs label =>
        ∃ target w, p.resolve? label = some target ∧ s.registers.read rs = some w ∧
          e = if condition.holds w then .jump target false else .pass
      | .jump linking label => ∃ target, p.resolve? label = some target ∧ e = .jump target linking
      | .jumpRegister linking rs =>
        ∃ w target, s.registers.read rs = some w ∧ p.lineOfWord w = .ok target ∧
          e = .jump target linking
      | .halt => e = .halt := by
  cases i <;>
    simp only [effect, bind_eq_ok_iff, State.fetch_eq_ok_iff, State.fetchMemory_eq_ok_iff,
      Program.find_eq_ok_iff, pure, Except.pure, Except.ok.injEq, exists_and_left,
      @eq_comm _ _ e]

/-- A fault that tells the truth about a program and a state. A refused jump is no matter of these. -/
def Fault.TrueOf (p : Program) (s : State) : Fault → Prop
  | .noValue (.register r) => s.registers.read r = none
  | .noValue (.memory a) => s.memory.read a = none ∧ a.isAligned = true
  | .invalidAddress sum operand =>
    (∃ base, s.registers.read operand.base = some base ∧
      sum = operand.offset.toInt + base.toInt) ∧
      (Word.ofInt? sum).filter Address.isAligned = none
  | .labelNotFound label => p.resolve? label = none
  | .jumpOutOfRange w => ¬ (0 ≤ w.toInt ∧ w.toInt ≤ p.size)
  | .tooManyJumps _ _ => False

theorem State.trueOf_of_fetch {p : Program} {s : State} {r : Register} {f : Fault}
    (h : s.fetch r = .error f) : f.TrueOf p s := by
  obtain ⟨hread, rfl⟩ := (s.fetch_eq_error_iff r f).1 h
  exact hread

theorem State.trueOf_of_address {p : Program} {s : State} {operand : Indirect} {f : Fault}
    (h : s.address operand = .error f) : f.TrueOf p s := by
  obtain ⟨hread, rfl⟩ | ⟨base, hbase, hnone, rfl⟩ := (s.address_eq_error_iff operand f).1 h
  · exact hread
  · exact ⟨⟨base, hbase, rfl⟩, hnone⟩

theorem Program.trueOf_of_find {p : Program} {s : State} {label : String} {f : Fault}
    (h : p.find label = .error f) : f.TrueOf p s := by
  obtain ⟨hnone, rfl⟩ := (p.find_eq_error_iff label f).1 h
  exact hnone

/-- **An instruction that has no effect tells the truth about why.** -/
theorem Instruction.trueOf_of_effect {p : Program} {s : State} {i : Instruction} {f : Fault}
    (h : i.effect p s = .error f) : f.TrueOf p s := by
  -- An instruction reads one thing after the other, and the first that is missing is reported.
  cases i with
  | load rd source =>
    simp only [effect, bind_eq_error_iff] at h
    obtain h | ⟨a, ha, h | ⟨w, -, h⟩⟩ := h
    · exact State.trueOf_of_address h
    · -- The cell has an address already, so a cell does start there.
      obtain ⟨hread, rfl⟩ := (s.fetchMemory_eq_error_iff a f).1 h
      obtain ⟨_, _, _, haligned⟩ := (s.address_eq_ok_iff source a).1 ha
      exact ⟨hread, haligned⟩
    · exact absurd h (by simp [pure, Except.pure])
  | store target rs =>
    simp only [effect, bind_eq_error_iff] at h
    obtain h | ⟨a, -, h | ⟨w, -, h⟩⟩ := h
    · exact State.trueOf_of_address h
    · exact State.trueOf_of_fetch h
    · exact absurd h (by simp [pure, Except.pure])
  | register op rd rs1 rs2 =>
    simp only [effect, bind_eq_error_iff] at h
    obtain h | ⟨a, -, h | ⟨b, -, h⟩⟩ := h
    · exact State.trueOf_of_fetch h
    · exact State.trueOf_of_fetch h
    · exact absurd h (by simp [pure, Except.pure])
  | immediate op rd rs1 value =>
    simp only [effect, bind_eq_error_iff] at h
    obtain h | ⟨a, -, h⟩ := h
    · exact State.trueOf_of_fetch h
    · exact absurd h (by simp [pure, Except.pure])
  | branch condition rs label =>
    simp only [effect, bind_eq_error_iff] at h
    obtain h | ⟨target, -, h | ⟨w, -, h⟩⟩ := h
    · exact Program.trueOf_of_find h
    · exact State.trueOf_of_fetch h
    · exact absurd h (by simp [pure, Except.pure])
  | jump linking label =>
    simp only [effect, bind_eq_error_iff] at h
    obtain h | ⟨target, -, h⟩ := h
    · exact Program.trueOf_of_find h
    · exact absurd h (by simp [pure, Except.pure])
  | jumpRegister linking rs =>
    simp only [effect, bind_eq_error_iff] at h
    obtain h | ⟨w, -, h | ⟨target, -, h⟩⟩ := h
    · exact State.trueOf_of_fetch h
    · obtain ⟨hrange, rfl⟩ := (p.lineOfWord_eq_error_iff w f).1 h
      exact hrange
    · exact absurd h (by simp [pure, Except.pure])
  | halt => exact absurd h (by simp [effect, pure, Except.pure])

/-- The next line has no part in what an instruction reads. -/
@[simp]
theorem Instruction.effect_goto (p : Program) (s : State) (line : Nat) (i : Instruction) :
    i.effect p (s.goto line) = i.effect p s := by
  cases i <;> rfl

/-- Only a store has a store for its effect, and it says where and of what. -/
theorem Instruction.store_of_effect {p : Program} {s : State} {i : Instruction} {target : Indirect}
    {a : Address} {w : Word} (h : i.effect p s = .ok (.store target a w)) :
    ∃ rs, i = .store target rs ∧ s.address target = .ok a ∧ s.registers.read rs = some w := by
  rw [effect_eq_ok_iff] at h
  cases i with
  | store operand rs =>
    obtain ⟨b, v, hb, hv, heq⟩ := h
    obtain ⟨rfl, rfl, rfl⟩ := Effect.store.inj heq
    exact ⟨rs, rfl, hb, hv⟩
  | branch condition rs label =>
    -- A branch jumps or passes, and stores nothing.
    obtain ⟨_, w', -, -, heq⟩ := h
    cases hholds : condition.holds w' <;> simp [hholds] at heq
  | load | register | immediate | jump | jumpRegister | halt => simp at h

/-- A cell starts wherever an instruction stores something. -/
theorem Instruction.isAligned_of_effect {p : Program} {s : State} {i : Instruction} {target : Indirect}
    {a : Address} {w : Word} (h : i.effect p s = .ok (.store target a w)) : a.isAligned = true := by
  obtain ⟨_, rfl, haddress, -⟩ := store_of_effect h
  obtain ⟨_, _, _, haligned⟩ := (s.address_eq_ok_iff target a).1 haddress
  exact haligned

/-- A jump leads to the line of the label to which the instruction refers, or to one that a register
gives. -/
theorem Instruction.target_of_effect {p : Program} {s : State} {i : Instruction} {target : Nat}
    {linking : Bool} (h : i.effect p s = .ok (.jump target linking)) :
    (∃ label, i.label? = some label ∧ p.resolve? label = some target) ∨
      ∃ rs w, i = .jumpRegister linking rs ∧ p.lineOfWord w = .ok target := by
  rw [effect_eq_ok_iff] at h
  cases i with
  | branch condition rs label =>
    obtain ⟨line, w, hline, -, heq⟩ := h
    cases hholds : condition.holds w with
    | false => simp [hholds] at heq
    | true =>
      obtain ⟨rfl, -⟩ : target = line ∧ linking = false := by simpa [hholds] using heq
      exact .inl ⟨label, rfl, hline⟩
  | jump link label =>
    obtain ⟨line, hline, heq⟩ := h
    obtain ⟨rfl, -⟩ := Effect.jump.inj heq
    exact .inl ⟨label, rfl, hline⟩
  | jumpRegister link rs =>
    obtain ⟨w, line, -, hline, heq⟩ := h
    obtain ⟨rfl, rfl⟩ := Effect.jump.inj heq
    exact .inr ⟨rs, w, rfl, hline⟩
  | load | store | register | immediate | halt => simp at h

/-- Only an instruction that may go on elsewhere has a jump for its effect. -/
theorem Instruction.isControl_of_effect {p : Program} {s : State} {i : Instruction} {target : Nat}
    {linking : Bool} (h : i.effect p s = .ok (.jump target linking)) : i.isControl = true := by
  obtain ⟨label, hlabel, -⟩ | ⟨rs, w, rfl, -⟩ := target_of_effect h
  · -- Branches and jumps alone refer to a label.
    cases i with
    | branch | jump => rfl
    | load | store | register | immediate | jumpRegister | halt => simp [label?] at hlabel
  · rfl

/-- A jump leads to a line of the program or just past the last one. -/
theorem Instruction.target_le_of_effect {p : Program} (hp : p.Indexed) {s : State} {i : Instruction}
    {target : Nat} {linking : Bool} (h : i.effect p s = .ok (.jump target linking)) :
    target ≤ p.size := by
  rcases target_of_effect h with ⟨label, -, htarget⟩ | ⟨rs, w, -, hline⟩
  · exact Nat.le_of_lt (hp.lt_size htarget)
  · -- The word has been compared with the number of lines.
    exact ((p.lineOfWord_eq_ok_iff w target).1 hline).2

/-- The effect of a line. A blank line does nothing. -/
def Program.effectAt (p : Program) (s : State) (line : Nat) : Except Fault Effect :=
  match p.instruction? line with
  | none => .ok .pass
  | some i => i.effect p s

theorem Program.target_le_of_effectAt {p : Program} (hp : p.Indexed) {s : State} {line target : Nat}
    {linking : Bool} (h : p.effectAt s line = .ok (.jump target linking)) : target ≤ p.size := by
  rw [effectAt] at h
  split at h
  · exact absurd h (by simp)
  · exact Instruction.target_le_of_effect hp h

/-- A cell starts wherever a line stores something. -/
theorem Program.isAligned_of_effectAt {p : Program} {s : State} {line : Nat} {target : Indirect}
    {a : Address} {w : Word} (h : p.effectAt s line = .ok (.store target a w)) : a.isAligned = true := by
  rw [effectAt] at h
  split at h
  · exact absurd h (by simp)
  · exact Instruction.isAligned_of_effect h

theorem Program.trueOf_of_effectAt {p : Program} {s : State} {line : Nat} {f : Fault}
    (h : p.effectAt s line = .error f) : f.TrueOf p s := by
  rw [effectAt] at h
  split at h
  · exact absurd h (by simp)
  · exact Instruction.trueOf_of_effect h

/-! ## §3 Counting jumps -/

/-- The tally of a guard knows the lines of a program, and the index just past the last one. -/
def JumpGuard.Fits (p : Program) (g : JumpGuard) : Prop :=
  g.tally.bound = p.size + 1

/-- The tally with which a run starts fits its program, whose lines have 64-bit indices. -/
theorem JumpGuard.fits_start {p : Program} (hp : p.size < JumpTally.greatestIndex) (limit : Nat) :
    (start p.size limit).Fits p :=
  Nat.min_eq_left hp

/-- The guard after a jump has been counted. -/
def JumpGuard.counted (g : JumpGuard) (j : Jump) : JumpGuard :=
  { g with tally := g.tally.increment j }

/-- A jump is refused: one more would be more than the limit allows. -/
def JumpGuard.Refuses (g : JumpGuard) (j : Jump) : Prop :=
  g.limit < min (g.tally.count j + 1) JumpTally.greatestCount

instance (g : JumpGuard) (j : Jump) : Decidable (g.Refuses j) :=
  inferInstanceAs (Decidable (_ < _))

/-- Nothing has been counted at the start of a run. -/
theorem JumpTally.count_start (length : Nat) (j : Jump) : (start length).count j = 0 := by
  simp [count, start]

theorem JumpGuard.Fits.counted {p : Program} {g : JumpGuard} (h : g.Fits p) (j : Jump) :
    (g.counted j).Fits p := h

namespace JumpTally

/-- **Recording a jump** between lines that the tally knows. It is counted in any case, and then refused
or not. -/
theorem record_of_inRange {t : JumpTally} {j : Jump} (hrange : t.InRange j) (limit : Nat) :
    t.record j limit =
      (if limit < min (t.count j + 1) greatestCount then .error (.tooManyJumps j.source j.target)
        else .ok (), t.increment j) := by
  have hcount : (t.increment j).count j = min (t.count j + 1) greatestCount := by
    rw [count_increment, if_pos rfl]
  simp only [record, if_pos hrange, hcount]
  split <;> rfl

/-- Any other jump is refused, and not counted. -/
theorem record_of_not_inRange {t : JumpTally} {j : Jump} (hrange : ¬ t.InRange j) (limit : Nat) :
    t.record j limit = (.error (.jumpOutOfRange (Word.ofIndex j.target)), t) :=
  if_neg hrange

end JumpTally

/-- **Counting a jump** under a guard that knows its lines. -/
theorem countJump_of_inRange {g : JumpGuard} {j : Jump} (hrange : g.tally.InRange j) :
    countJump j (some g) =
      (if g.Refuses j then .error (.tooManyJumps j.source j.target) else .ok (),
        some (g.counted j)) := by
  rw [countJump, JumpTally.record_of_inRange hrange]
  rfl

theorem countJump_of_not_inRange {g : JumpGuard} {j : Jump} (hrange : ¬ g.tally.InRange j) :
    countJump j (some g) = (.error (.jumpOutOfRange (Word.ofIndex j.target)), some g) := by
  rw [countJump, JumpTally.record_of_not_inRange hrange]

/-- The tally of a program knows both lines of its jumps. -/
theorem countJump_some {p : Program} {g : JumpGuard} (hg : g.Fits p) {j : Jump}
    (hsource : j.source < p.size) (htarget : j.target ≤ p.size) :
    countJump j (some g) =
      (if g.Refuses j then .error (.tooManyJumps j.source j.target) else .ok (),
        some (g.counted j)) := by
  apply countJump_of_inRange
  rw [JumpTally.InRange, hg]
  omega

/-! ## §4 Dispatching -/

/-- Memory with a word in a cell. -/
def Memory.put (m : Memory) (a : Address) (w : Word) : Memory :=
  ⟨m.cells.insert a w⟩

theorem Memory.write_of_isAligned {m : Memory} {a : Address} (h : a.isAligned = true) (w : Word) :
    m.write a w = .ok (m.put a w) :=
  if_pos h

theorem Memory.read_put {m : Memory} {a : Address} (h : a.isAligned = true) (w : Word) (b : Address) :
    (m.put a w).read b = if b = a then some w else m.read b :=
  m.read_write (m.put a w) a b w (write_of_isAligned h w)

/-- **What dispatching a line leaves behind**, by the effect of the line. -/
theorem State.dispatch_eq (p : Program) (line : Nat) (s : State) (guard : Option JumpGuard) :
    s.dispatch p line guard =
      match p.effectAt s line with
      | .error fault => ⟨.error fault, s.goto line, guard⟩
      | .ok (.write rd w) => ⟨.ok .next, (s.goto (line + 1)).writeRegister rd w, guard⟩
      | .ok (.store _ a w) => ⟨.ok .next, { s.goto (line + 1) with memory := s.memory.put a w }, guard⟩
      | .ok (.jump target linking) =>
        match countJump ⟨line, target⟩ guard with
        | (.ok _, g) => ⟨.ok .next, s.jump line target linking, g⟩
        | (.error fault, g) => ⟨.error fault, s.goto line, g⟩
      | .ok .pass => ⟨.ok .next, s.goto (line + 1), guard⟩
      | .ok .halt => ⟨.ok .halt, s.goto (line + 1), guard⟩ := by
  rw [dispatch, Program.effectAt]
  cases hi : p.instruction? line with
  | none => rfl
  | some i =>
    simp only [Instruction.execute, Instruction.effect_goto]
    cases heffect : i.effect p s with
    | error fault => rfl
    | ok e =>
      cases e with
      | write rd w => rfl
      | store target a w =>
        -- The address has been checked, so memory does not refuse it.
        have hwrite := Memory.write_of_isAligned (m := s.memory) (Instruction.isAligned_of_effect heffect) w
        simp only [Effect.perform, memory_goto, hwrite]
      | jump target linking =>
        simp only [Effect.perform]
        cases countJump ⟨line, target⟩ guard with
        | mk verdict g =>
          cases verdict with
          | error fault => rfl
          | ok _ => cases linking <;> rfl
      | pass => rfl
      | halt => rfl

/-! ## §5 Effects on a state -/

/-- What an effect makes of a state, if nothing refuses it. -/
def Effect.applied (line : Nat) (s : State) : Effect → State
  | .write rd w => s.writeRegister rd w
  | .store _ a w => { s with memory := s.memory.put a w }
  | .jump target linking => s.jump line target linking
  | .pass | .halt => s

/-- An effect that has been performed is one that nothing has refused. -/
theorem Effect.eq_applied_of_perform {line : Nat} {s t : State} {guard g : Option JumpGuard} {e : Effect}
    {flow : Flow} (h : e.perform line s guard = ⟨.ok flow, t, g⟩) : t = e.applied line s := by
  cases e with
  | store target a w =>
    rw [perform] at h
    by_cases ha : a.isAligned = true
    · rw [Memory.write_of_isAligned ha] at h
      exact (Execution.mk.inj h).2.1.symm
    · have hrefused : s.memory.write a w = .error ⟨a⟩ := if_neg ha
      rw [hrefused] at h
      exact absurd (Execution.mk.inj h).1 (by simp)
  | jump target linking =>
    rw [perform] at h
    rcases hcount : countJump ⟨line, target⟩ guard with ⟨verdict, g'⟩
    rw [hcount] at h
    cases verdict with
    | ok _ => exact (Execution.mk.inj h).2.1.symm
    | error fault => exact absurd (Execution.mk.inj h).1 (by simp)
  | write | pass | halt => exact (Execution.mk.inj h).2.1.symm

/-- An instruction that has been carried out has had its effect. -/
theorem Instruction.applied_of_execute {p : Program} {line : Nat} {s t : State}
    {guard g : Option JumpGuard} {i : Instruction} {flow : Flow}
    (h : i.execute p line s guard = ⟨.ok flow, t, g⟩) :
    ∃ e, i.effect p s = .ok e ∧ t = e.applied line s := by
  rw [execute] at h
  cases heffect : i.effect p s with
  | error fault =>
    rw [heffect] at h
    exact absurd (Execution.mk.inj h).1 (by simp)
  | ok e =>
    rw [heffect] at h
    exact ⟨e, rfl, Effect.eq_applied_of_perform h⟩

/-- **A line that has no fault has had its effect** on the state in which the line below is next. -/
theorem State.applied_of_dispatch {p : Program} {line : Nat} {s t : State} {guard g : Option JumpGuard}
    {flow : Flow} (h : s.dispatch p line guard = ⟨.ok flow, t, g⟩) :
    ∃ e, p.effectAt s line = .ok e ∧ t = e.applied line (s.goto (line + 1)) := by
  rw [dispatch] at h
  rw [Program.effectAt]
  cases hi : p.instruction? line with
  | none =>
    rw [hi] at h
    exact ⟨.pass, rfl, (Execution.mk.inj h).2.1.symm⟩
  | some i =>
    rw [hi] at h
    dsimp only at h
    rcases he : i.execute p line (s.goto (line + 1)) guard with ⟨fault | flow', u, g'⟩
    · rw [he] at h
      exact absurd (Execution.mk.inj h).1 (by simp)
    · rw [he] at h
      obtain ⟨-, rfl, -⟩ := Execution.mk.inj h
      obtain ⟨e, heffect, happlied⟩ := Instruction.applied_of_execute he
      rw [Instruction.effect_goto] at heffect
      exact ⟨e, heffect, happlied⟩

end Dlx
