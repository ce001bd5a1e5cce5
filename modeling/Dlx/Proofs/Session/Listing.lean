import Dlx.Proofs.Machine.Atomicity
import Dlx.Proofs.Session.Stepping
import Mathlib.Data.List.Forall2

/-!
# What a step session shows

A step session shows the lines that it has executed, in order, and each of them with its number and its
source. A line that has a fault has not been executed, and is not shown. There is one exception: the line
that leads past the last line of the program has been executed, and what it has done stays done, but the
step that runs it fails, and the session shows lines only for steps that answer.

- **§1** the lines that are executed (`State.executed`)
- **§2** lines and the events that show them (`Shows`, `shown`)
- **§3** the transcript of a session (`Lists`), for each way in which a step ends
- **§4** whole sessions, and one that does not show its last line
-/

namespace Dlx

/-! ## §1 Executed lines -/

/-- The lines that are executed from a state on, if no more than a number of them may be dispatched. The
program goes on from line to line, until one of them halts, has a fault, or leads past the last line. All
of them are executed but the one that has a fault. -/
def State.executed (p : Program) : Nat → State → List Nat
  | 0, _ => []
  | left + 1, s =>
    if s.pc < p.size then
      match s.dispatch p s.pc none with
      | ⟨.ok .next, t, _⟩ => s.pc :: t.executed p left
      | ⟨.ok .halt, _, _⟩ => [s.pc]
      | ⟨.error _, _, _⟩ => []
    else []

/-- The lines that a machine executes when it is stepped through its program, as many as its budget
allows. -/
def Machine.executed (m : Machine) : List Nat :=
  match m.program with
  | none => []
  | some p => (m.state.wrapped p).executed p m.budget.maxSteps.toNat

section

variable {p : Program} {s t : State} {g : Option JumpGuard}

theorem State.executed_of_not_lt (h : ¬ s.pc < p.size) (left : Nat) : s.executed p left = [] := by
  cases left with
  | zero => rfl
  | succ left => rw [executed, if_neg h]

theorem State.executed_of_next (hpc : s.pc < p.size) (h : s.dispatch p s.pc none = ⟨.ok .next, t, g⟩)
    (left : Nat) : s.executed p (left + 1) = s.pc :: t.executed p left := by
  rw [executed, if_pos hpc, h]

theorem State.executed_of_halt (hpc : s.pc < p.size) (h : s.dispatch p s.pc none = ⟨.ok .halt, t, g⟩)
    (left : Nat) : s.executed p (left + 1) = [s.pc] := by
  rw [executed, if_pos hpc, h]

theorem State.executed_of_fault {fault : Fault} (hpc : s.pc < p.size)
    (h : s.dispatch p s.pc none = ⟨.error fault, t, g⟩) (left : Nat) :
    s.executed p (left + 1) = [] := by
  rw [executed, if_pos hpc, h]

end

namespace Session

/-! ## §2 Lines and events -/

/-- An event shows a line of a program: it is the line that has been executed, with its source. -/
def Shows (p : Program) (line : Nat) (event : Event) : Prop :=
  ∃ l, p.line? line = some l ∧ event = .executed line l

/-- The text that shows a line of a program: its number, counted from one and filled up to five columns
with spaces in front, two spaces, and its source. -/
def listing (p : Program) (line : Nat) : String :=
  match p.line? line with
  | some l => Text.padStart 5 (Decimal.ofNat (line + 1)) ++ "  " ++ l.text ++ "\n"
  | none => ""

/-- What is shown of the lines that have been executed: all of them, unless the program has run out of
lines. Then the last one is missing. -/
def shown (ending : Ending) (lines : List Nat) : List Nat :=
  if ending = .failed .haltNotFound then lines.dropLast else lines

theorem Shows.text_eq {p : Program} {line : Nat} {event : Event} (h : Shows p line event) :
    event.text = listing p line := by
  obtain ⟨l, hl, rfl⟩ := h
  rw [listing, hl]
  rfl

theorem texts_eq {p : Program} {lines : List Nat} {events : List Event}
    (h : List.Forall₂ (Shows p) lines events) : events.map Event.text = lines.map (listing p) := by
  induction h with
  | nil => rfl
  | cons hfirst _ ih => rw [List.map_cons, List.map_cons, hfirst.text_eq, ih]

theorem executedEvent_of_line {p : Program} {line : Nat} {l : Line} (h : p.line? line = some l)
    (s : State) (b : Budget) : executedEvent ⟨some p, s, b⟩ line = [.executed line l] := by
  show (match p.line? line with
    | some l => [Event.executed line l]
    | none => []) = _
  rw [h]

/-- If a line is executed before others, then it is shown before what is shown of these. -/
theorem shown_cons {ending : Ending} {lines : List Nat}
    (h : ending = .failed .haltNotFound → lines ≠ []) (line : Nat) :
    shown ending (line :: lines) = line :: shown ending lines := by
  unfold shown
  by_cases hending : ending = .failed .haltNotFound
  · rw [if_pos hending, if_pos hending, List.dropLast_cons_of_ne_nil (h hending)]
  · rw [if_neg hending, if_neg hending]

/-! ## §3 Transcripts -/

/-- `Course p b limit left seen s t`: a step session that is at a line of the program, may dispatch `left`
more lines, and has shown `seen`, latest first, ends with transcript `t`. -/
inductive Course (p : Program) (b : Budget) (limit : Nat) :
    Nat → List Event → State → Transcript → Prop where
  | exhausted {seen : List Event} {s : State} :
      Course p b limit 0 seen s ⟨seen.reverse, .failed (.tooManySteps limit), ⟨some p, s, b⟩⟩
  | faulted {left : Nat} {seen : List Event} {s t : State} {l : Line} {g : Option JumpGuard}
      {fault : Fault} :
      p.line? s.pc = some l → s.dispatch p s.pc none = ⟨.error fault, t, g⟩ →
      Course p b limit (left + 1) seen s
        ⟨seen.reverse, .failed (.fault s.pc fault), ⟨some p, t, b⟩⟩
  | halted {left : Nat} {seen : List Event} {s t : State} {l : Line} {g : Option JumpGuard} :
      p.line? s.pc = some l → s.dispatch p s.pc none = ⟨.ok .halt, t, g⟩ →
      Course p b limit (left + 1) seen s
        ⟨(.executed s.pc l :: seen).reverse, .finished, ⟨some p, t.goto 0, b⟩⟩
  | ranOut {left : Nat} {seen : List Event} {s t : State} {l : Line} {g : Option JumpGuard} :
      p.line? s.pc = some l → s.dispatch p s.pc none = ⟨.ok .next, t, g⟩ → ¬ t.pc < p.size →
      Course p b limit (left + 1) seen s
        ⟨seen.reverse, .failed .haltNotFound, ⟨some p, t.goto 0, b⟩⟩
  | advanced {left : Nat} {seen : List Event} {s t : State} {l : Line} {g : Option JumpGuard}
      {u : Transcript} :
      p.line? s.pc = some l → s.dispatch p s.pc none = ⟨.ok .next, t, g⟩ → t.pc < p.size →
      Course p b limit left (.executed s.pc l :: seen) t u → Course p b limit (left + 1) seen s u

theorem course_stepFrom {p : Program} (b : Budget) (limit left : Nat) {s : State} (hpc : s.pc < p.size)
    (seen : List Event) :
    Course p b limit left seen s (stepFrom limit left seen ⟨some p, s, b⟩) := by
  -- On the lines that may be dispatched; a line from which the program goes on leads to another line of it.
  induction left generalizing s seen with
  | zero => exact .exhausted
  | succ left ih =>
    obtain ⟨l, hl⟩ := (p.lt_size_iff s.pc).1 hpc
    rw [stepFrom_succ, State.step_of_line (State.wrapped_of_lt hpc) hl]
    rcases hdispatch : s.dispatch p s.pc none with ⟨fault | flow, t, g⟩
    · exact .faulted hl hdispatch
    · cases flow with
      | halt =>
        simp only [executedEvent_of_line hl]
        exact .halted hl hdispatch
      | next =>
        by_cases hnext : t.pc < p.size
        · simp only [if_pos hnext, executedEvent_of_line hl]
          exact .advanced hl hdispatch hnext (ih hnext _)
        · simp only [if_neg hnext]
          exact .ranOut hl hdispatch hnext

/-- A transcript shows some events, and behind them what is shown of some executed lines. There is such a
line if the program has run out of lines. -/
structure Lists (p : Program) (before : List Event) (lines : List Nat) (t : Transcript) : Prop where
  events : ∃ events, t.events = before ++ events ∧
    List.Forall₂ (Shows p) (shown t.ending lines) events
  executed : t.ending = .failed .haltNotFound → lines ≠ []

section

variable {p : Program} {b : Budget} {limit left : Nat} {seen : List Event} {s : State} {t : Transcript}

/-- One more line is executed and shown in front. -/
theorem Lists.cons {before : List Event} {lines : List Nat} {line : Nat} {event : Event}
    (h : Lists p (before ++ [event]) lines t) (hshows : Shows p line event) :
    Lists p before (line :: lines) t where
  events := by
    obtain ⟨events, hevents, hrest⟩ := h.events
    refine ⟨event :: events, ?_, ?_⟩
    · rw [hevents, List.append_assoc]
      rfl
    · rw [shown_cons h.executed]
      exact .cons hshows hrest
  executed _ := by simp

/-- **A step session shows the lines that are executed**, from any line of the program on. Only a line that
leads past the last line is not shown. -/
theorem Course.lists (h : Course p b limit left seen s t) :
    Lists p seen.reverse (s.executed p left) t := by
  -- On the session.
  induction h with
  | exhausted => exact ⟨⟨[], by simp, .nil⟩, by simp⟩
  | faulted hl hdispatch =>
    rw [State.executed_of_fault (Program.lt_size_of_line? hl) hdispatch]
    exact ⟨⟨[], by simp, .nil⟩, by simp⟩
  | @halted left seen s t l g hl hdispatch =>
    rw [State.executed_of_halt (Program.lt_size_of_line? hl) hdispatch]
    exact ⟨⟨[.executed s.pc l], List.reverse_cons, .cons ⟨l, hl, rfl⟩ .nil⟩, by simp⟩
  | ranOut hl hdispatch hpc =>
    -- The line has been executed, but the step that runs it does not answer.
    rw [State.executed_of_next (Program.lt_size_of_line? hl) hdispatch, State.executed_of_not_lt hpc]
    exact ⟨⟨[], by simp, .nil⟩, by simp⟩
  | advanced hl hdispatch _ _ ih =>
    rw [State.executed_of_next (Program.lt_size_of_line? hl) hdispatch]
    rw [List.reverse_cons] at ih
    exact ih.cons ⟨_, hl, rfl⟩

/-- The ways in which a step session ends. -/
theorem Course.ending_cases (h : Course p b limit left seen s t) :
    t.ending = .finished ∨ (∃ line fault, t.ending = .failed (.fault line fault)) ∨
      t.ending = .failed .haltNotFound ∨
      t.ending = .failed (.tooManySteps limit) ∧ (s.executed p left).length = left := by
  induction h with
  | exhausted => exact .inr (.inr (.inr ⟨rfl, rfl⟩))
  | faulted => exact .inr (.inl ⟨_, _, rfl⟩)
  | halted => exact .inl rfl
  | ranOut => exact .inr (.inr (.inl rfl))
  | advanced hl hdispatch _ _ ih =>
    obtain hfinished | hfault | hrun | ⟨hsteps, hlength⟩ := ih
    · exact .inl hfinished
    · exact .inr (.inl hfault)
    · exact .inr (.inr (.inl hrun))
    · rw [State.executed_of_next (Program.lt_size_of_line? hl) hdispatch, List.length_cons, hlength]
      exact .inr (.inr (.inr ⟨hsteps, rfl⟩))

end

/-! ## §4 Whole sessions -/

section

variable {m : Machine} {p : Program}

/-- The next line of a machine that commands can give is a line of its program already. -/
theorem placed_of_reachable (hm : m.Reachable) (hprogram : m.program = some p) :
    m.state.Placed p.size := by
  rw [← Machine.size_of_program hprogram]
  exact hm.sound.placed

theorem wrapped_of_reachable (hm : m.Reachable) (hprogram : m.program = some p) :
    m.state.wrapped p = m.state :=
  State.wrapped_of_placed (placed_of_reachable hm hprogram)

theorem executed_of_reachable (hm : m.Reachable) (hprogram : m.program = some p) :
    m.executed = m.state.executed p m.budget.maxSteps.toNat := by
  rw [Machine.executed, hprogram]
  show (m.state.wrapped p).executed p m.budget.maxSteps.toNat = _
  rw [wrapped_of_reachable hm hprogram]

theorem course_step (hm : m.Reachable) (hprogram : m.program = some p) (hsize : p.size ≠ 0) :
    Course p m.budget m.budget.maxSteps.toNat m.budget.maxSteps.toNat [] m.state (step m) := by
  have hplaced := placed_of_reachable hm hprogram
  rw [State.Placed, if_neg hsize] at hplaced
  obtain ⟨program, s, b⟩ := m
  obtain rfl : program = some p := hprogram
  exact course_stepFrom b _ _ hplaced []

/-- A program without lines has run out of lines before any is executed. -/
theorem step_of_no_lines (hm : m.Reachable) (hprogram : m.program = some p) (hsize : p.size = 0) :
    m.executed = [] ∧ (step m).events = [] ∧ (step m).ending = .failed .haltNotFound := by
  have hpc : ¬ m.state.pc < p.size := by omega
  have hwrapped := wrapped_of_reachable hm hprogram
  obtain ⟨hsteps, -⟩ := Budget.pos_of_check hm.sound.budget
  refine ⟨?_, ?_⟩
  · rw [executed_of_reachable hm hprogram, State.executed_of_not_lt hpc]
  · obtain ⟨program, s, b⟩ := m
    obtain rfl : program = some p := hprogram
    obtain ⟨left, hleft⟩ := Nat.exists_eq_add_one_of_ne_zero (Nat.ne_of_gt hsteps)
    change b.maxSteps.toNat = left + 1 at hleft
    have hmissing : p.line? s.pc = none := by
      cases hl : p.line? s.pc with
      | none => rfl
      | some l => exact absurd (Program.lt_size_of_line? hl) hpc
    show (stepFrom b.maxSteps.toNat b.maxSteps.toNat [] ⟨some p, s, b⟩).events = [] ∧
      (stepFrom b.maxSteps.toNat b.maxSteps.toNat [] ⟨some p, s, b⟩).ending = _
    rw [hleft, stepFrom_succ, State.step_of_missing hwrapped hmissing]
    exact ⟨rfl, rfl⟩

/-- What is shown is all that has been executed, or one line less. -/
theorem Lists.forall₂_iff {lines : List Nat} {t : Transcript} (h : Lists p [] lines t) :
    List.Forall₂ (Shows p) lines t.events ↔ t.ending ≠ .failed .haltNotFound := by
  obtain ⟨events, hevents, hshows⟩ := h.events
  rw [List.nil_append] at hevents
  rw [hevents]
  constructor
  · intro hall hending
    -- The events would show as many lines with the last one as without it.
    rw [shown, if_pos hending] at hshows
    have hlength := hall.length_eq.trans hshows.length_eq.symm
    rw [List.length_dropLast] at hlength
    have hpos := List.length_pos_of_ne_nil (h.executed hending)
    omega
  · intro hending
    rwa [shown, if_neg hending] at hshows

/-- **What a step session shows.** From every machine that commands can give and that has a program, the
transcript shows lines that have been executed without a fault, in the order in which they have been
executed, each as its number and its source, and whatever ends the session: a line that halts, a fault, the
number of lines, or the end of the program. It shows all of them, unless the session ends because the
program has run out of lines. Then the last line that has been executed is not shown. -/
theorem step_shows (hm : m.Reachable) (hprogram : m.program = some p) :
    List.Forall₂ (Shows p) (shown (step m).ending m.executed) (step m).events ∧
    (step m).text = String.join ((shown (step m).ending m.executed).map (listing p)) ∧
    (List.Forall₂ (Shows p) m.executed (step m).events ↔
      ((step m).ending = .failed .haltNotFound → p.size = 0)) ∧
    ((step m).ending = .finished ∨
      (∃ line fault, (step m).ending = .failed (.fault line fault)) ∨
      (step m).ending = .failed .haltNotFound ∨
      (step m).ending = .failed (.tooManySteps m.budget.maxSteps.toNat) ∧
        m.executed.length = m.budget.maxSteps.toNat) := by
  have htext : ∀ lines, List.Forall₂ (Shows p) lines (step m).events →
      (step m).text = String.join (lines.map (listing p)) := by
    intro lines h
    rw [Transcript.text, texts_eq h]
  by_cases hsize : p.size = 0
  · obtain ⟨hexecuted, hevents, hending⟩ := step_of_no_lines hm hprogram hsize
    have hshows : List.Forall₂ (Shows p) [] (step m).events := by
      rw [hevents]
      exact .nil
    rw [hexecuted, hending]
    exact ⟨hshows, htext [] hshows, iff_of_true hshows fun _ => hsize, .inr (.inr (.inl rfl))⟩
  · have hcourse := course_step hm hprogram hsize
    rw [executed_of_reachable hm hprogram]
    have hlists := hcourse.lists
    obtain ⟨events, hevents, hshows⟩ := hlists.events
    obtain rfl : (step m).events = events := hevents
    refine ⟨hshows, htext _ hshows, hlists.forall₂_iff.trans ?_, hcourse.ending_cases⟩
    exact ⟨fun hne hending => absurd hending hne, fun h hending => hsize (h hending)⟩

end

theorem step_shows_watchingClosely :
    watchingClosely.Reachable ∧ watchingClosely.program = some (watched true) ∧
      watchingClosely.executed = [0, 1, 2, 1, 2, 1, 2, 3] ∧
      (step watchingClosely).ending = .finished ∧
      List.Forall₂ (Shows (watched true)) watchingClosely.executed (step watchingClosely).events := by
  have hending : (step watchingClosely).ending = .finished := rfl
  have h := (step_shows reachable_watchingClosely rfl).2.2.1
  refine ⟨reachable_watchingClosely, rfl, rfl, hending, h.2 fun hmissing => ?_⟩
  exact absurd (hending.symm.trans hmissing) (by simp)

/-- A program that computes a word twice and does not halt. -/
def overrunning : Program :=
  .ofLines [
    ⟨none, false, some (.immediate .add .link .zero 2)⟩,
    ⟨none, false, some (.immediate .add .link .link 1)⟩]

/-- A new machine into which that program has been loaded. -/
def overrun : Machine :=
  (Machine.initial.obey (.load overrunning)).2

theorem reachable_overrun : overrun.Reachable :=
  .obey .initial (.ofLines _)

/-- **Not every executed line is shown.** Both lines of this program are executed, and what the second one
has computed is there in the end; but only the first line is shown, since the program runs out of lines with
the second. -/
theorem not_shows_overrun :
    overrun.Reachable ∧ overrun.program = some overrunning ∧ overrun.executed = [0, 1] ∧
      (step overrun).machine.state.registers.read .link = some 3 ∧
      (step overrun).ending = .failed .haltNotFound ∧
      (step overrun).text = "    1  ADDI R31, R0, #2\n" ∧
      ¬ ∀ (m : Machine) (p : Program), m.Reachable → m.program = some p →
        List.Forall₂ (Shows p) m.executed (step m).events := by
  refine ⟨reachable_overrun, rfl, rfl, rfl, rfl, by decide, fun h => ?_⟩
  have hlength := (h overrun overrunning reachable_overrun rfl).length_eq
  exact absurd hlength (by decide)

end Session

end Dlx
