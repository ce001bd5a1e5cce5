import Dlx.Binary.Instruction
import Dlx.Proofs.Binary.Format

/-!
# The binary formats of the instruction set are exact

Each format of the instruction set is put together from exact ones and is exact itself. The one condition
is on instructions: the length of the label to which an instruction refers must fit into eight bytes.

- **§1** enumerations
- **§2** registers, budgets and operands in memory
- **§3** instructions, form by form
- **§4** what all formats promise
-/

namespace Dlx

open Binary

/-! ## §1 Enumerations -/

theorem exact_aluOp : Exact AluOp fun _ => True :=
  exact_of_members (fun _ => rfl) rfl AluOp.mem_all (by decide) (by decide)

theorem exact_opcode : Exact Opcode fun _ => True :=
  exact_of_members (fun _ => rfl) rfl Opcode.mem_all (by decide) (by decide)

theorem exact_condition : Exact Condition fun _ => True := by
  apply exact_of_members (fun _ => rfl) rfl _ (by decide) (by decide)
  intro condition
  cases condition <;> decide

theorem exact_operandKind : Exact OperandKind fun _ => True := by
  apply exact_of_members (fun _ => rfl) rfl _ (by decide) (by decide)
  intro kind
  cases kind <;> decide

theorem exact_opcodeClass : Exact OpcodeClass fun _ => True := by
  apply exact_of_members (fun _ => rfl) rfl _ (by decide) (by decide)
  intro opcodeClass
  cases opcodeClass <;> decide

theorem exact_form : Exact Form fun _ => True := by
  apply exact_of_members (fun _ => rfl) rfl _ (by decide) (by decide)
  intro form
  cases form <;> decide

/-! ## §2 Registers, budgets and operands in memory -/

theorem Register.ofNat?_eq_some_iff (n : Nat) (r : Register) : ofNat? n = some r ↔ n = r.index := by
  constructor
  · intro h
    unfold ofNat? at h
    split at h
    · obtain rfl := Option.some.inj h
      rfl
    · exact absurd h (by simp)
  · rintro rfl
    exact ofNat?_index r

theorem exact_register : Exact Register fun _ => True := by
  intro bytes r rest
  show (do Register.ofNat? (← reader UInt8).toNat : Reader Register).run bytes = _ ↔
    True ∧ bytes = encode (UInt8.ofNat r.index) ++ rest
  simp only [run_bind_eq_some_iff, run_liftM_eq_some_iff, exact_uint8 bytes,
    Register.ofNat?_eq_some_iff, true_and]
  constructor
  · intro h
    obtain ⟨byte, middle, rfl, hindex, rfl⟩ := h
    rw [← hindex, UInt8.ofNat_toNat]
  · intro h
    -- An index below 32 is a byte.
    have hindex : (UInt8.ofNat r.index).toNat = r.index := by
      rw [UInt8.toNat_ofNat']
      omega
    exact ⟨UInt8.ofNat r.index, rest, h, hindex, rfl⟩

theorem exact_budget : Exact Budget fun _ => True := by
  intro bytes b rest
  show (do return ⟨← reader UInt32, ← reader UInt32⟩ : Reader Budget).run bytes = _ ↔
    True ∧ bytes = encode b.maxSteps ++ encode b.maxJumps ++ rest
  simp only [run_bind_eq_some_iff, run_pure_eq_some_iff, exact_uint32 _, true_and]
  rw [List.append_assoc]
  constructor
  · intro h
    obtain ⟨steps, _, rfl, jumps, middle, rfl, rfl, rfl⟩ := h
    rfl
  · intro h
    exact ⟨b.maxSteps, encode b.maxJumps ++ rest, h, b.maxJumps, rest, rfl, rfl, rfl⟩

theorem exact_indirect : Exact Indirect fun _ => True := by
  intro bytes a rest
  show (do
      let base ← reader Register
      let offset ← reader Word
      return ⟨offset, base⟩ : Reader Indirect).run bytes = _ ↔
    True ∧ bytes = encode a.base ++ encode a.offset ++ rest
  simp only [run_bind_eq_some_iff, run_pure_eq_some_iff, exact_register _, exact_int32 _, true_and]
  rw [List.append_assoc]
  constructor
  · intro h
    obtain ⟨base, _, rfl, offset, middle, rfl, rfl, rfl⟩ := h
    rfl
  · intro h
    exact ⟨a.base, encode a.offset ++ rest, h, a.offset, rest, rfl, rfl, rfl⟩

/-! ## §3 Instructions -/

namespace Instruction

/-- The length of the label to which the instruction refers, if any, fits into eight bytes. -/
def Fits (i : Instruction) : Prop :=
  ∀ label, i.label? = some label → TextFits label

/-- **The operands of an instruction are read back** by the reader for its form. -/
theorem run_readOperands {i : Instruction} (h : i.Fits) (rest : List UInt8) :
    i.form.readOperands.run (i.encodeOperands ++ rest) = some (i, rest) := by
  cases i with
  | load rd source =>
    simp only [form, Form.readOperands, encodeOperands, List.append_assoc,
      exact_register.run_bind_append trivial, exact_indirect.run_bind_append trivial]
    rfl
  | store target rs =>
    simp only [form, Form.readOperands, encodeOperands, List.append_assoc,
      exact_indirect.run_bind_append trivial, exact_register.run_bind_append trivial]
    rfl
  | register op rd rs1 rs2 =>
    simp only [form, Form.readOperands, encodeOperands, List.append_assoc,
      exact_aluOp.run_bind_append trivial, exact_register.run_bind_append trivial]
    rfl
  | immediate op rd rs1 value =>
    simp only [form, Form.readOperands, encodeOperands, List.append_assoc,
      exact_aluOp.run_bind_append trivial, exact_register.run_bind_append trivial,
      exact_int32.run_bind_append trivial]
    rfl
  | branch condition rs label =>
    have hlabel : TextFits label := h label rfl
    simp only [form, Form.readOperands, encodeOperands, List.append_assoc,
      exact_condition.run_bind_append trivial, exact_register.run_bind_append trivial,
      exact_string.run_bind_append hlabel]
    rfl
  | jump linking label =>
    have hlabel : TextFits label := h label rfl
    simp only [form, Form.readOperands, encodeOperands, List.append_assoc,
      exact_bool.run_bind_append trivial, exact_string.run_bind_append hlabel]
    rfl
  | jumpRegister linking rs =>
    simp only [form, Form.readOperands, encodeOperands, List.append_assoc,
      exact_bool.run_bind_append trivial, exact_register.run_bind_append trivial]
    rfl
  | halt => rfl

/-- **What the reader for a form reads** is an instruction of this form, from the bytes of its operands. -/
theorem eq_of_run_readOperands {form : Form} {bytes rest : List UInt8} {i : Instruction}
    (h : form.readOperands.run bytes = some (i, rest)) :
    i.form = form ∧ i.Fits ∧ bytes = i.encodeOperands ++ rest := by
  -- The reader takes one operand after the other; together their bytes are those that it has taken.
  cases form with
  | load =>
    simp only [Form.readOperands, run_bind_eq_some_iff, run_pure_eq_some_iff, exact_register _,
      exact_indirect _] at h
    obtain ⟨rd, _, ⟨-, rfl⟩, source, _, ⟨-, rfl⟩, rfl, rfl⟩ := h
    exact ⟨rfl, by simp [Fits, label?], by simp [encodeOperands]⟩
  | store =>
    simp only [Form.readOperands, run_bind_eq_some_iff, run_pure_eq_some_iff, exact_register _,
      exact_indirect _] at h
    obtain ⟨target, _, ⟨-, rfl⟩, rs, _, ⟨-, rfl⟩, rfl, rfl⟩ := h
    exact ⟨rfl, by simp [Fits, label?], by simp [encodeOperands]⟩
  | register =>
    simp only [Form.readOperands, run_bind_eq_some_iff, run_pure_eq_some_iff, exact_aluOp _,
      exact_register _] at h
    obtain ⟨op, _, ⟨-, rfl⟩, rd, _, ⟨-, rfl⟩, rs1, _, ⟨-, rfl⟩, rs2, _, ⟨-, rfl⟩, rfl, rfl⟩ := h
    exact ⟨rfl, by simp [Fits, label?], by simp [encodeOperands]⟩
  | immediate =>
    simp only [Form.readOperands, run_bind_eq_some_iff, run_pure_eq_some_iff, exact_aluOp _,
      exact_register _, exact_int32 _] at h
    obtain ⟨op, _, ⟨-, rfl⟩, rd, _, ⟨-, rfl⟩, rs1, _, ⟨-, rfl⟩, value, _, ⟨-, rfl⟩, rfl, rfl⟩ := h
    exact ⟨rfl, by simp [Fits, label?], by simp [encodeOperands]⟩
  | branch =>
    simp only [Form.readOperands, run_bind_eq_some_iff, run_pure_eq_some_iff, exact_condition _,
      exact_register _, exact_string _] at h
    obtain ⟨condition, _, ⟨-, rfl⟩, rs, _, ⟨-, rfl⟩, label, _, ⟨hlabel, rfl⟩, rfl, rfl⟩ := h
    exact ⟨rfl, by simpa [Fits, label?] using hlabel, by simp [encodeOperands]⟩
  | jump =>
    simp only [Form.readOperands, run_bind_eq_some_iff, run_pure_eq_some_iff, exact_bool _,
      exact_string _] at h
    obtain ⟨linking, _, ⟨-, rfl⟩, label, _, ⟨hlabel, rfl⟩, rfl, rfl⟩ := h
    exact ⟨rfl, by simpa [Fits, label?] using hlabel, by simp [encodeOperands]⟩
  | jumpRegister =>
    simp only [Form.readOperands, run_bind_eq_some_iff, run_pure_eq_some_iff, exact_bool _,
      exact_register _] at h
    obtain ⟨linking, _, ⟨-, rfl⟩, rs, _, ⟨-, rfl⟩, rfl, rfl⟩ := h
    exact ⟨rfl, by simp [Fits, label?], by simp [encodeOperands]⟩
  | halt =>
    simp only [Form.readOperands, run_pure_eq_some_iff] at h
    obtain ⟨rfl, rfl⟩ := h
    exact ⟨rfl, by simp [Fits, label?], by simp [encodeOperands]⟩

end Instruction

theorem exact_instruction : Exact Instruction Instruction.Fits := by
  intro bytes i rest
  show (do (← reader Form).readOperands : Reader Instruction).run bytes = _ ↔
    i.Fits ∧ bytes = encode i.form ++ i.encodeOperands ++ rest
  simp only [run_bind_eq_some_iff, exact_form bytes, true_and]
  rw [List.append_assoc]
  constructor
  · intro h
    obtain ⟨form, middle, rfl, hread⟩ := h
    obtain ⟨rfl, hfits, rfl⟩ := Instruction.eq_of_run_readOperands hread
    exact ⟨hfits, rfl⟩
  · intro h
    exact ⟨i.form, i.encodeOperands ++ rest, h.2, Instruction.run_readOperands h.1 rest⟩

/-! ## §4 All formats -/

/-- **The binary formats of the instruction set** are lossless, canonical and prefix-free: what is written
is read back whatever follows it, whatever is read begins with the bytes of the value that is read, and
bytes that are cut short are refused. Only a label has to fit. -/
theorem faithful_instructionSet :
    Faithful Instruction Instruction.Fits ∧ (Faithful Budget fun _ => True) ∧
      (Faithful Register fun _ => True) ∧ (Faithful Opcode fun _ => True) ∧
      (Faithful OpcodeClass fun _ => True) ∧ (Faithful OperandKind fun _ => True) ∧
      (Faithful AluOp fun _ => True) ∧ (Faithful Condition fun _ => True) :=
  ⟨exact_instruction.faithful, exact_budget.faithful, exact_register.faithful, exact_opcode.faithful,
    exact_opcodeClass.faithful, exact_operandKind.faithful, exact_aluOp.faithful, exact_condition.faithful⟩

/-- The fourth form, the eighth operation, two registers and a negative word. -/
example :
    encode (Instruction.immediate .sra ⟨4⟩ ⟨4⟩ (-3)) =
      [3, 0, 0, 0, 7, 0, 0, 0, 4, 4, 0xFD, 0xFF, 0xFF, 0xFF] := by
  decide

end Dlx
