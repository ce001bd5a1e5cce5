import Dlx.Proofs.Assembly.Image
import Dlx.Proofs.Machine.Operations

/-!
# Loading a program that was not assembled

Instructions can be given to a machine without a source text, and then they are checked. The check accepts
all that can be read from a mnemonic and arguments, and it refuses the product with an immediate operand,
which has no mnemonic. It overlooks two things that reading refuses: that a result goes to `R0`, and that
the label of a branch or a jump is empty.

- **§1** instructions that can be read (`Instruction.Producible`), and those that are accepted nevertheless
  (`Instruction.Overlooked`)
- **§2** programs
- **§3** what is loaded
-/

namespace Dlx

open Assembly

/-! ## §1 Instructions -/

namespace Instruction

/-- The instruction is read from its mnemonic and some arguments. -/
def Producible (i : Instruction) : Prop :=
  ∃ arguments, readInstruction i.mnemonic arguments = .ok i

/-- The result goes to `R0`, or the label is empty. No such instruction is read, and the check does not
look at either. -/
def Overlooked (i : Instruction) : Prop :=
  i.destination? = some .zero ∨ i.label? = some ""

/-- **What can be read is accepted and not overlooked**, and all of that can be read. -/
theorem producible_iff (i : Instruction) : i.Producible ↔ i.check = .ok () ∧ ¬ i.Overlooked := by
  constructor
  · intro ⟨arguments, hread⟩
    obtain ⟨-, hcheck, hdestination, -, -⟩ := (readInstruction_eq_ok_iff ..).1 hread
    refine ⟨hcheck, ?_⟩
    rintro (hzero | hempty)
    · exact hdestination hzero
    · exact (mem_of_readInstruction hread hempty).2 rfl
  · intro ⟨hcheck, hseen⟩
    have hdestination : i.destination? ≠ some .zero := fun hzero => hseen (.inl hzero)
    have hlabel : i.label? ≠ some "" := fun hempty => hseen (.inr hempty)
    exact ⟨i.arguments, readInstruction_arguments hcheck hdestination hlabel⟩

end Instruction

/-! ## §2 Programs -/

namespace Program

/-- Every instruction can be read. -/
def Producible (p : Program) : Prop :=
  ∀ (line : Nat) (i : Instruction), p.instruction? line = some i → i.Producible

/-- No instruction is one that the check overlooks. -/
def Seen (p : Program) : Prop :=
  ∀ (line : Nat) (i : Instruction), p.instruction? line = some i → ¬ i.Overlooked

theorem producible_iff (p : Program) : p.Producible ↔ p.Checked ∧ p.Seen := by
  constructor
  · intro h
    have hread := fun line i hi => (Instruction.producible_iff i).1 (h line i hi)
    exact ⟨fun line i hi => (hread line i hi).1, fun line i hi => (hread line i hi).2⟩
  · intro ⟨hchecked, hseen⟩ line i hi
    exact i.producible_iff.2 ⟨hchecked line i hi, hseen line i hi⟩

theorem checked_iff_producible_iff (p : Program) :
    (p.Checked ↔ p.Producible) ↔ (p.Checked → p.Seen) := by
  rw [producible_iff]
  constructor
  · intro h hchecked
    exact (h.1 hchecked).2
  · intro h
    exact ⟨fun hchecked => ⟨hchecked, h hchecked⟩, And.left⟩

end Program

/-! ## §3 Loading -/

namespace Machine

theorem perform_load_eq_ok_iff (m : Machine) (p : Program) :
    (m.perform (load p)).1 = .ok () ↔ p.Checked := by
  rw [perform_load, ← p.firstFlaw?_eq_none_iff]
  cases p.firstFlaw? with
  | none => simp
  | some found => simp

/-- A program that is refused is refused for its first instruction that is not accepted. -/
theorem perform_load_eq_error {m : Machine} {p : Program} {e : MachineError}
    (h : (m.perform (load p)).1 = .error e) :
    (∃ line i flaw, e = .badInstruction line flaw ∧
      p.instruction? line = some i ∧ i.check = .error flaw ∧
      ∀ k < line, ∀ j, p.instruction? k = some j → j.check = .ok ()) ∧
    (m.perform (load p)).2 = m.unloaded := by
  rw [perform_load] at h ⊢
  cases hflaw : p.firstFlaw? with
  | none => simp [hflaw] at h
  | some found =>
    obtain ⟨line, flaw⟩ := found
    rw [hflaw] at h
    obtain ⟨⟨i, hi, hcheck⟩, hbefore⟩ := Program.flaw_of_firstFlaw? hflaw
    exact ⟨⟨line, i, flaw, (Except.error.inj h).symm, hi, hcheck, hbefore⟩, rfl⟩

/-- **What a machine loads.** An instruction can be read from its mnemonic and arguments exactly if it is
accepted, its result does not go to `R0` and its label is not empty. A program is loaded exactly if all its
instructions are accepted; that all of them can be read comes to the same for those programs only that are
refused or have neither a result that goes to `R0` nor an empty label. A program that is refused is
refused for the first instruction that is not accepted, which cannot be read, and leaves no program. -/
theorem load_verdict (m : Machine) (p : Program) :
    (∀ i : Instruction, i.Producible ↔ i.check = .ok () ∧ ¬ i.Overlooked) ∧
    ((m.perform (load p)).1 = .ok () ↔ p.Checked) ∧
    (((m.perform (load p)).1 = .ok () ↔ p.Producible) ↔ (p.Checked → p.Seen)) ∧
    ∀ e, (m.perform (load p)).1 = .error e →
      (∃ line i flaw, e = .badInstruction line flaw ∧
        p.instruction? line = some i ∧ i.check = .error flaw ∧ ¬ i.Producible ∧
        ∀ k < line, ∀ j, p.instruction? k = some j → j.check = .ok ()) ∧
      (m.perform (load p)).2.program = none := by
  refine ⟨Instruction.producible_iff, m.perform_load_eq_ok_iff p, ?_, fun e he => ?_⟩
  · rw [perform_load_eq_ok_iff]
    exact p.checked_iff_producible_iff
  · obtain ⟨⟨line, i, flaw, rfl, hi, hcheck, hbefore⟩, hleft⟩ := perform_load_eq_error he
    have hunread : ¬ i.Producible := by
      rw [Instruction.producible_iff, hcheck]
      simp
    exact ⟨⟨line, i, flaw, rfl, hi, hcheck, hunread, hbefore⟩, by rw [hleft]; rfl⟩

/-- A program that loads a word into `R0`, and jumps to the empty label. -/
def overlooked : Program :=
  .ofLines [⟨none, false, some (.load .zero ⟨0, .zero⟩)⟩, ⟨none, false, some (.jump false "")⟩]

/-- Two instructions that cannot be read are accepted, and the program is loaded. -/
theorem load_overlooked :
    Instruction.check (.load .zero ⟨0, .zero⟩) = .ok () ∧
    ¬ Instruction.Producible (.load .zero ⟨0, .zero⟩) ∧
    Instruction.check (.jump false "") = .ok () ∧
    ¬ Instruction.Producible (.jump false "") ∧
    (initial.perform (load overlooked)).1 = .ok () ∧
    (initial.perform (load overlooked)).2.program = some overlooked ∧
    ¬ overlooked.Producible := by
  have hload : ¬ Instruction.Producible (.load .zero ⟨0, .zero⟩) := by
    rw [Instruction.producible_iff]
    exact fun h => h.2 (.inl rfl)
  have hjump : ¬ Instruction.Producible (.jump false "") := by
    rw [Instruction.producible_iff]
    exact fun h => h.2 (.inr rfl)
  exact ⟨rfl, hload, rfl, hjump, rfl, rfl, fun h => hload (h 0 _ rfl)⟩

end Machine

end Dlx
