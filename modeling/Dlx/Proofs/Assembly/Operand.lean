import Dlx.Assembly.Operand
import Dlx.Proofs.Assembly.Token

/-!
# Reading instructions

An instruction is its opcode and its operands. Each operand is written with a text of its own, and that
text is read back as the operand; so an instruction is read back from its mnemonic and its arguments. In
the other direction, an instruction that has been read is one that a mnemonic can write, does not
write to `R0`, and refers to no label but one of the arguments.

- **§1** the texts of opcodes, numbers and registers, and their characters
- **§2** operands (`Operand.text`, `Operand.kind`)
- **§3** opcode and operands of an instruction
- **§4** instructions
-/

namespace Dlx

/-! ## §1 Characters -/

/-- The characters with which opcodes, numbers, registers and places in memory are written. -/
def isPlain (c : Char) : Bool :=
  c.isDigit || c.isUpper || ['#', '-', '(', ')'].contains c

theorem isPlain_of_isDigit {c : Char} (h : c.isDigit = true) : isPlain c = true := by
  rw [isPlain, h, Bool.true_or, Bool.true_or]

theorem not_blank_of_isPlain {c : Char} (h : isPlain c = true) : Text.isBlank c = false := by
  -- The codes of these characters; none of the ranges of blanks contains one of them.
  have hcode : (48 ≤ c.toNat ∧ c.toNat ≤ 57) ∨ (65 ≤ c.toNat ∧ c.toNat ≤ 90) ∨
      c.toNat = 35 ∨ c.toNat = 40 ∨ c.toNat = 41 ∨ c.toNat = 45 := by
    rw [isPlain, Bool.or_eq_true, Bool.or_eq_true] at h
    rcases h with (hdigit | hupper) | hsign
    · exact .inl (Char.isDigit_iff_toNat.1 hdigit)
    · have hrange := of_decide_eq_true hupper
      exact .inr (.inl ⟨UInt32.le_iff_toNat_le.1 hrange.1, UInt32.le_iff_toNat_le.1 hrange.2⟩)
    · simp only [List.contains_eq_mem, List.mem_cons, List.not_mem_nil, or_false,
        decide_eq_true_eq] at hsign
      obtain rfl | rfl | rfl | rfl := hsign <;> decide
  simp only [Text.isBlank, Text.blankRanges, List.any_cons, List.any_nil, Bool.or_eq_false_iff,
    Bool.and_eq_false_iff, decide_eq_false_iff_not, and_true]
  omega

/-- A text of such characters has no blanks, and so none at its ends. -/
theorem solid_of_plain {cs : List Char} (hne : cs ≠ []) (h : ∀ c ∈ cs, isPlain c = true) :
    Text.Solid cs :=
  Text.solid_of_not_blank hne fun c hc => not_blank_of_isPlain (h c hc)

/-- Other characters do not occur in a text of such characters. -/
theorem not_mem_of_plain {cs : List Char} (h : ∀ c ∈ cs, isPlain c = true) {d : Char}
    (hd : isPlain d = false) : d ∉ cs := by
  intro hmem
  rw [h d hmem] at hd
  exact absurd hd (by simp)

/-- Opcodes are written with such characters only. -/
theorem Opcode.plain_mnemonic (op : Opcode) :
    op.mnemonic ≠ "" ∧ ∀ c ∈ op.mnemonic.toList, isPlain c = true := by
  have hall : all.all (fun o => o.mnemonic != "" && o.mnemonic.toList.all isPlain) = true := by decide
  have hop := List.all_eq_true.1 hall op (mem_all op)
  simpa using hop

theorem Decimal.plain_toDigits {n : Nat} {c : Char} (h : c ∈ Nat.toDigits 10 n) : isPlain c = true :=
  isPlain_of_isDigit (Nat.isDigit_of_mem_toDigits (by omega) (by omega) h)

/-- A numeral consists of digits and perhaps a minus sign. -/
theorem Decimal.SignedNumeral.isPlain {cs : List Char} {i : Int} (h : SignedNumeral cs i) {c : Char}
    (hc : c ∈ cs) : isPlain c = true := by
  by_cases hminus : c = '-'
  · rw [hminus]
    rfl
  · cases hdigit : c.isDigit with
    | true => exact isPlain_of_isDigit hdigit
    | false => exact absurd hc (h.not_mem hdigit hminus)

theorem Decimal.plain_ofInt {i : Int} {c : Char} (h : c ∈ (Decimal.ofInt i).toList) :
    isPlain c = true :=
  (signedNumeral_ofInt i).isPlain h

theorem Register.toList_name (r : Register) : r.name.toList = 'R' :: Nat.toDigits 10 r.index := by
  rw [name, String.toList_append, Decimal.toList_ofNat]
  rfl

/-- The index of a register is far below the bound for numerals. -/
theorem Register.index_lt_bound (r : Register) : (r.index : Nat) < UInt32.size :=
  Nat.lt_trans r.index.isLt (by decide)

/-- The digits of a register's index are read back. -/
theorem Register.index?_toDigits (r : Register) :
    Register.index? (Nat.toDigits 10 r.index) = some (r.index : Nat) :=
  (index?_eq_some_iff ..).2 ⟨Decimal.numeral_toDigits r.index, r.index_lt_bound⟩

/-- **The name of a register denotes it.** -/
theorem Register.ofName_name (r : Register) : Register.ofName r.name = .ok r := by
  rw [ofName, toList_name]
  simp only [index?_toDigits, ofIndex, ofNat?_index]

theorem Register.plain_name {r : Register} {c : Char} (h : c ∈ r.name.toList) : isPlain c = true := by
  rw [toList_name] at h
  rcases List.mem_cons.1 h with rfl | hdigit
  · rfl
  · exact Decimal.plain_toDigits hdigit

theorem Indirect.toList_text (a : Indirect) :
    a.text.toList = a.offset.text.toList ++ '(' :: (a.base.name.toList ++ [')']) := by
  rw [text, String.toList_append, String.toList_append, String.toList_append, List.append_assoc,
    List.append_assoc]
  rfl

theorem Indirect.plain_text {a : Indirect} {c : Char} (h : c ∈ a.text.toList) : isPlain c = true := by
  rw [toList_text, List.mem_append, List.mem_cons, List.mem_append, List.mem_singleton] at h
  obtain hoffset | rfl | hbase | rfl := h
  · exact Decimal.plain_ofInt hoffset
  · rfl
  · exact Register.plain_name hbase
  · rfl

namespace Assembly

/-- The name of a register is written as its token. -/
theorem Token.ofText?_name (r : Register) : Token.ofText? r.name = some (.register r.index) := by
  rw [ofText?_eq_some_iff, Register.toList_name]
  exact .register (Decimal.numeral_toDigits r.index) r.index_lt_bound

theorem Token.ofText?_immediate (w : Word) : Token.ofText? ("#" ++ w.text) = some (.immediate w) := by
  rw [ofText?_eq_some_iff, String.toList_append]
  exact .immediate (Decimal.signedNumeral_ofInt w.toInt)

theorem Token.ofText?_indirect (a : Indirect) :
    Token.ofText? a.text = some (.indirect a.offset a.base.index) := by
  rw [ofText?_eq_some_iff, Indirect.toList_text, Register.toList_name]
  exact .indirect (Decimal.signedNumeral_ofInt a.offset.toInt) (Decimal.numeral_toDigits a.base.index)
    a.base.index_lt_bound

/-! ## §2 Operands -/

/-- The kind that an operand is of. -/
def Operand.kind : Operand → OperandKind
  | .register _ => .register
  | .indirect _ => .indirect
  | .immediate _ => .immediate
  | .label _ => .label

/-- The text with which an operand is written. -/
def Operand.text : Operand → String
  | .register r => r.name
  | .indirect a => a.text
  | .immediate value => "#" ++ value.text
  | .label name => name

/-- An operand other than a label is written with such characters only. -/
theorem Operand.plain_text (operand : Operand) :
    (∃ name, operand = .label name) ∨
      operand.text ≠ "" ∧ ∀ c ∈ operand.text.toList, isPlain c = true := by
  cases operand with
  | register r =>
    refine .inr ⟨?_, fun c hc => Register.plain_name hc⟩
    rw [text, ne_eq, ← String.toList_eq_nil_iff, Register.toList_name]
    simp
  | indirect a =>
    refine .inr ⟨?_, fun c hc => Indirect.plain_text hc⟩
    rw [text, ne_eq, ← String.toList_eq_nil_iff, Indirect.toList_text]
    simp
  | immediate value =>
    refine .inr ⟨?_, fun c hc => ?_⟩
    · rw [text, ne_eq, ← String.toList_eq_nil_iff, String.toList_append]
      simp
    · rw [text, String.toList_append, List.mem_append] at hc
      rcases hc with hsign | hnumeral
      · obtain rfl := List.mem_singleton.1 hsign
        rfl
      · exact Decimal.plain_ofInt hnumeral
  | label name => exact .inl ⟨name, rfl⟩

theorem existing_index (r : Register) (text : String) : existing r.index text = .ok r := by
  rw [existing, Register.ofNat?_index]

/-- **The text of an operand is read back**, whatever its position; only a label must not be empty. -/
theorem Operand.read_text (position : Nat) (operand : Operand) (h : operand ≠ .label "") :
    Operand.read operand.kind position operand.text = .ok operand := by
  cases operand with
  | register r =>
    simp only [read, kind, text, Token.ofText?_name, existing_index]
    rfl
  | indirect a =>
    simp only [read, kind, text, Token.ofText?_indirect, existing_index]
    rfl
  | immediate value => simp only [read, kind, text, Token.ofText?_immediate]
  | label name =>
    have hne : name ≠ "" := fun hempty => h (hempty ▸ rfl)
    exact if_neg hne

/-- A label that has been read is the argument itself, and not empty. -/
theorem Operand.eq_of_read_label {kind : OperandKind} {position : Nat} {text name : String}
    (h : Operand.read kind position text = .ok (.label name)) : name = text ∧ name ≠ "" := by
  -- Only the case of a label answers with a label.
  unfold read at h
  split at h
  · rename_i index _
    cases hregister : existing index text <;> simp [hregister, Except.map] at h
  · rename_i offset index _
    cases hregister : existing index text <;> simp [hregister, Except.map] at h
  · exact absurd h (by simp)
  · exact absurd h (by simp)
  · split at h
    · exact absurd h (by simp)
    · rename_i hne
      obtain rfl := Operand.label.inj (Except.ok.inj h)
      exact ⟨rfl, hne⟩
  · exact absurd h (by simp)

theorem readOperands_cons (position : Nat) (kind : OperandKind) (kinds : List OperandKind)
    (text : String) (texts : List String) (operands : List Operand) :
    readOperands position (kind :: kinds) (text :: texts) = .ok operands ↔
      ∃ first rest, Operand.read kind position text = .ok first ∧
        readOperands (position + 1) kinds texts = .ok rest ∧ operands = first :: rest := by
  rw [readOperands]
  cases Operand.read kind position text with
  | error e => simp [bind, Except.bind]
  | ok first =>
    cases readOperands (position + 1) kinds texts with
    | error e => simp [bind, Except.bind]
    | ok rest => simp [bind, Except.bind, pure, Except.pure, eq_comm]

/-- **The texts of operands are read back.** -/
theorem readOperands_text (position : Nat) (operands : List Operand) (h : .label "" ∉ operands) :
    readOperands position (operands.map Operand.kind) (operands.map Operand.text) = .ok operands := by
  induction operands generalizing position with
  | nil => rfl
  | cons operand operands ih =>
    -- The position matters for errors only, and there is none.
    rw [List.mem_cons, not_or] at h
    exact (readOperands_cons ..).2
      ⟨operand, operands, operand.read_text position (Ne.symm h.1), ih (position + 1) h.2, rfl⟩

/-- A label that has been read is one of the arguments, and not empty. -/
theorem mem_of_readOperands {position : Nat} {kinds : List OperandKind} {texts : List String}
    {operands : List Operand} (h : readOperands position kinds texts = .ok operands) {name : String}
    (hname : .label name ∈ operands) : name ∈ texts ∧ name ≠ "" := by
  induction kinds generalizing position texts operands with
  | nil =>
    obtain rfl : [] = operands := Except.ok.inj h
    exact absurd hname (by simp)
  | cons kind kinds ih =>
    cases texts with
    | nil =>
      obtain rfl : [] = operands := Except.ok.inj h
      exact absurd hname (by simp)
    | cons text texts =>
      obtain ⟨first, rest, hfirst, hrest, rfl⟩ := (readOperands_cons ..).1 h
      rcases List.mem_cons.1 hname with rfl | hmem
      · obtain ⟨rfl, hne⟩ := Operand.eq_of_read_label hfirst
        exact ⟨List.mem_cons_self .., hne⟩
      · obtain ⟨htext, hne⟩ := ih hrest hmem
        exact ⟨List.mem_cons_of_mem _ htext, hne⟩

end Assembly

/-! ## §3 Opcode and operands -/

/-- The operands of an instruction, as they are written from left to right. -/
def Instruction.operands : Instruction → List Assembly.Operand
  | .load rd source => [.register rd, .indirect source]
  | .store target rs => [.indirect target, .register rs]
  | .register _ rd rs1 rs2 => [.register rd, .register rs1, .register rs2]
  | .immediate _ rd rs1 value => [.register rd, .register rs1, .immediate value]
  | .branch _ rs label => [.register rs, .label label]
  | .jump _ label => [.label label]
  | .jumpRegister _ rs => [.register rs]
  | .halt => []

/-- The arguments of an instruction are the texts of its operands. -/
theorem Instruction.arguments_eq (i : Instruction) :
    i.arguments = i.operands.map Assembly.Operand.text := by
  cases i <;> rfl

/-- The product is the only operation that is not accepted with an immediate operand. -/
theorem Instruction.check_immediate_iff (op : AluOp) (rd rs1 : Register) (value : Word) :
    (immediate op rd rs1 value).check = .ok () ↔ op ≠ .mult := by
  by_cases hop : op = .mult <;> simp [check, AluOp.immediateForm?, hop]

/-- Every other operation has an opcode for this form. -/
theorem Instruction.opcode_immediate {op : AluOp} (h : op ≠ .mult) (rd rs1 : Register) (value : Word) :
    (immediate op rd rs1 value).opcode = .immediate op h := by
  simp [opcode, AluOp.immediateForm?, h]

/-- An instruction that is accepted has the operands for which its opcode asks. -/
theorem Instruction.kind_operands {i : Instruction} (h : i.check = .ok ()) :
    i.operands.map Assembly.Operand.kind = i.opcode.operands := by
  cases i with
  | immediate op rd rs1 value =>
    rw [opcode_immediate ((check_immediate_iff ..).1 h)]
    rfl
  | load | store | register | branch | jump | jumpRegister | halt => rfl

theorem Instruction.mem_operands_iff (i : Instruction) (name : String) :
    .label name ∈ i.operands ↔ i.label? = some name := by
  cases i <;> simp [operands, label?, eq_comm]

namespace Assembly

/-- The result would go to `R0` exactly if that is the register that the instruction may change. -/
theorem writesZero_iff (i : Instruction) :
    writesZero i.opcode i.operands = true ↔ i.destination? = some .zero := by
  cases i with
  | immediate op rd rs1 value =>
    by_cases hop : op = .mult
    · subst hop
      simp [writesZero, Instruction.opcode, AluOp.immediateForm?, Opcode.writesFirst,
        Opcode.opcodeClass, Instruction.operands, Instruction.destination?]
    · simp [writesZero, Instruction.opcode, AluOp.immediateForm?, hop, Opcode.writesFirst,
        Opcode.opcodeClass, Instruction.operands, Instruction.destination?]
  | jump linking label | jumpRegister linking rs =>
    -- A link goes to `R31`, which is not the register of zero.
    cases linking <;>
      simp [writesZero, Instruction.opcode, Opcode.writesFirst, Opcode.opcodeClass,
        Instruction.destination?, Register.link, Register.zero]
  | load | store | register | branch | halt =>
    simp [writesZero, Instruction.opcode, Opcode.writesFirst, Opcode.opcodeClass,
      Instruction.operands, Instruction.destination?]

/-- **An instruction is put together from its opcode and its operands**, and from no others. -/
theorem build?_eq_some_iff (opcode : Opcode) (operands : List Operand) (i : Instruction) :
    build? opcode operands = some i ↔
      i.check = .ok () ∧ i.opcode = opcode ∧ i.operands = operands := by
  constructor
  · intro h
    unfold build? at h
    split at h
    -- The fourth form is the one whose operation has been shown not to be the product.
    case h_4 op notMult rd rs1 value =>
      obtain rfl := Option.some.inj h
      exact ⟨(Instruction.check_immediate_iff ..).2 notMult, Instruction.opcode_immediate notMult .., rfl⟩
    case h_9 => exact absurd h (by simp)
    all_goals
      obtain rfl := Option.some.inj h
      exact ⟨rfl, rfl, rfl⟩
  · rintro ⟨hcheck, rfl, rfl⟩
    cases i with
    | immediate op rd rs1 value =>
      rw [Instruction.opcode_immediate ((Instruction.check_immediate_iff ..).1 hcheck)]
      rfl
    | load | store | register | branch | jump | jumpRegister | halt => rfl

/-! ## §4 Instructions -/

/-- **What is read from a mnemonic and its arguments** is an instruction with that mnemonic and with the
operands that the arguments denote. -/
theorem readInstruction_eq_ok_iff (mnemonic : String) (arguments : List String) (i : Instruction) :
    readInstruction mnemonic arguments = .ok i ↔
      mnemonic = i.mnemonic ∧ i.check = .ok () ∧ i.destination? ≠ some .zero ∧
        arguments.length = i.opcode.arity ∧
        readOperands 1 i.opcode.operands arguments = .ok i.operands := by
  constructor
  · intro h
    -- Each of the checks has been passed, in the order in which they are made.
    unfold readInstruction at h
    split at h
    · exact absurd h (by simp)
    · rename_i opcode hopcode
      obtain rfl := (Opcode.ofMnemonic?_eq_some_iff mnemonic opcode).1 hopcode
      split at h
      · exact absurd h (by simp)
      · rename_i hlength
        split at h
        · exact absurd h (by simp)
        · rename_i operands hread
          split at h
          · exact absurd h (by simp)
          · rename_i hwrites
            split at h
            · rename_i j hbuild
              obtain rfl := Except.ok.inj h
              obtain ⟨hcheck, rfl, rfl⟩ := (build?_eq_some_iff opcode operands j).1 hbuild
              rw [writesZero_iff] at hwrites
              exact ⟨rfl, hcheck, hwrites, Decidable.not_not.1 hlength, hread⟩
            · exact absurd h (by simp)
  · rintro ⟨rfl, hcheck, hdestination, hlength, hread⟩
    have hopcode : Opcode.ofMnemonic? i.mnemonic = some i.opcode :=
      (Opcode.ofMnemonic?_eq_some_iff i.mnemonic i.opcode).2 rfl
    have hbuild : build? i.opcode i.operands = some i :=
      (build?_eq_some_iff i.opcode i.operands i).2 ⟨hcheck, rfl, rfl⟩
    have hwrites : ¬ writesZero i.opcode i.operands = true := by
      rwa [writesZero_iff]
    simp only [readInstruction, hopcode, hlength, ne_eq, not_true_eq_false, if_false, hread,
      if_neg hwrites, hbuild]

/-- **An instruction is read back from its mnemonic and its arguments**, if it is one that can be
read at all. -/
theorem readInstruction_arguments {i : Instruction} (hcheck : i.check = .ok ())
    (hdestination : i.destination? ≠ some .zero) (hlabel : i.label? ≠ some "") :
    readInstruction i.mnemonic i.arguments = .ok i := by
  have hkinds := Instruction.kind_operands hcheck
  have hnamed : .label "" ∉ i.operands := by
    rwa [Instruction.mem_operands_iff]
  refine (readInstruction_eq_ok_iff ..).2 ⟨rfl, hcheck, hdestination, ?_, ?_⟩
  · -- There are as many texts as operands, and as many operands as kinds.
    rw [Opcode.arity, ← hkinds, i.arguments_eq, List.length_map, List.length_map]
  · rw [← hkinds, i.arguments_eq]
    exact readOperands_text 1 i.operands hnamed

/-- The label to which an instruction refers that has been read is one of the arguments, and not
empty. -/
theorem mem_of_readInstruction {mnemonic : String} {arguments : List String} {i : Instruction}
    (h : readInstruction mnemonic arguments = .ok i) {name : String} (hname : i.label? = some name) :
    name ∈ arguments ∧ name ≠ "" := by
  obtain ⟨-, -, -, -, hread⟩ := (readInstruction_eq_ok_iff ..).1 h
  exact mem_of_readOperands hread ((i.mem_operands_iff name).2 hname)

end Assembly

end Dlx
