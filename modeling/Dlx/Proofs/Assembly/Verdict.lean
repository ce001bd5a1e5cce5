import Dlx.Proofs.Assembly.Operand

/-!
# The verdict on an instruction

A mnemonic and its arguments are read as an instruction, or something is wrong with them. What that is
depends on the first of these questions to be answered with no: is there such an opcode, are there as
many arguments as it takes, does each argument fit its place, and may the first one receive the result?
The questions are put here without the reader, argument for argument.

- **§1** one argument: what it denotes (`Denotes`), and why it does not fit (`Misfit`)
- **§2** all arguments (`Denoted`, `FirstMisfit`)
- **§3** opcodes, and instructions from their operands
- **§4** the verdict (`Verdict`)
-/

namespace Dlx

namespace Assembly

/-! ## §1 One argument -/

/-- What an argument denotes where an operand of a kind is asked for. Any text that is not empty can be
a label. -/
inductive Denotes : OperandKind → String → Operand → Prop where
  | register {text : String} {r : Register} :
      (Token.register r.index).Written text.toList → Denotes .register text (.register r)
  | indirect {text : String} {a : Indirect} :
      (Token.indirect a.offset a.base.index).Written text.toList → Denotes .indirect text (.indirect a)
  | immediate {text : String} {w : Word} :
      (Token.immediate w).Written text.toList → Denotes .immediate text (.immediate w)
  | label {text : String} : text ≠ "" → Denotes .label text (.label text)

/-- Why an argument at a position is no operand of a kind: it has not the shape, or it has the shape and
the register in it does not exist. -/
inductive Misfit : OperandKind → Nat → String → Flaw → Prop where
  | register {position : Nat} {text : String} :
      (∀ n, ¬ (Token.register n).Written text.toList) →
      Misfit .register position text (.operandExpected .register position text)
  | noRegister {position : Nat} {text : String} {n : Nat} :
      (Token.register n).Written text.toList → 32 ≤ n →
      Misfit .register position text (.registerOutOfRange text)
  | indirect {position : Nat} {text : String} :
      (∀ w n, ¬ (Token.indirect w n).Written text.toList) →
      Misfit .indirect position text (.operandExpected .indirect position text)
  | noBase {position : Nat} {text : String} {w : Word} {n : Nat} :
      (Token.indirect w n).Written text.toList → 32 ≤ n →
      Misfit .indirect position text (.registerOutOfRange text)
  | immediate {position : Nat} {text : String} :
      (∀ w, ¬ (Token.immediate w).Written text.toList) →
      Misfit .immediate position text (.immediateExpected position text)
  | label {position : Nat} : Misfit .label position "" (.labelExpected position)

theorem existing_of_le {n : Nat} (h : 32 ≤ n) (text : String) :
    existing n text = .error (.registerOutOfRange text) := by
  rw [existing, Register.ofNat?, dif_neg (Nat.not_lt.2 h)]

theorem Operand.read_of_denotes {kind : OperandKind} {text : String} {operand : Operand}
    (h : Denotes kind text operand) (position : Nat) :
    Operand.read kind position text = .ok operand := by
  cases h with
  | register hwritten =>
    simp only [read, (Token.ofText?_eq_some_iff ..).2 hwritten, existing_index]
    rfl
  | indirect hwritten =>
    simp only [read, (Token.ofText?_eq_some_iff ..).2 hwritten, existing_index]
    rfl
  | immediate hwritten => simp only [read, (Token.ofText?_eq_some_iff ..).2 hwritten]
  | label hne => exact if_neg hne

theorem Operand.read_of_misfit {kind : OperandKind} {position : Nat} {text : String} {flaw : Flaw}
    (h : Misfit kind position text flaw) : Operand.read kind position text = .error flaw := by
  cases h with
  | register hnone | indirect hnone | immediate hnone =>
    cases htoken : Token.ofText? text with
    | none => simp only [read, htoken]
    | some token =>
      have hwritten := (Token.ofText?_eq_some_iff ..).1 htoken
      -- A token of another shape does not fit either.
      cases token <;> first
        | exact absurd hwritten (by apply hnone)
        | simp only [read, htoken]
  | noRegister hwritten hn | noBase hwritten hn =>
    simp only [read, (Token.ofText?_eq_some_iff ..).2 hwritten, existing_of_le hn]
    rfl
  | label => rfl

/-- Every argument denotes an operand or does not fit. -/
theorem denotes_or_misfit (kind : OperandKind) (position : Nat) (text : String) :
    (∃ operand, Denotes kind text operand) ∨ ∃ flaw, Misfit kind position text flaw := by
  cases kind with
  | register =>
    by_cases h : ∃ n, (Token.register n).Written text.toList
    · obtain ⟨n, hn⟩ := h
      -- The index is that of a register, or too large for one.
      by_cases hlt : n < 32
      · exact .inl ⟨.register ⟨⟨n, hlt⟩⟩, .register hn⟩
      · exact .inr ⟨_, .noRegister hn (Nat.not_lt.1 hlt)⟩
    · exact .inr ⟨_, .register (not_exists.1 h)⟩
  | indirect =>
    by_cases h : ∃ w n, (Token.indirect w n).Written text.toList
    · obtain ⟨w, n, hn⟩ := h
      by_cases hlt : n < 32
      · exact .inl ⟨.indirect ⟨w, ⟨⟨n, hlt⟩⟩⟩, .indirect hn⟩
      · exact .inr ⟨_, .noBase hn (Nat.not_lt.1 hlt)⟩
    · exact .inr ⟨_, .indirect fun w n hn => h ⟨w, n, hn⟩⟩
  | immediate =>
    by_cases h : ∃ w, (Token.immediate w).Written text.toList
    · obtain ⟨w, hw⟩ := h
      exact .inl ⟨_, .immediate hw⟩
    · exact .inr ⟨_, .immediate (not_exists.1 h)⟩
  | label =>
    by_cases hne : text = ""
    · subst hne
      exact .inr ⟨_, .label⟩
    · exact .inl ⟨_, .label hne⟩

/-- **An argument is read as what it denotes.** -/
theorem Operand.read_eq_ok_iff (kind : OperandKind) (position : Nat) (text : String)
    (operand : Operand) :
    Operand.read kind position text = .ok operand ↔ Denotes kind text operand := by
  constructor
  · intro h
    rcases denotes_or_misfit kind position text with ⟨other, hother⟩ | ⟨flaw, hflaw⟩
    · rw [read_of_denotes hother position] at h
      rwa [← Except.ok.inj h]
    · rw [read_of_misfit hflaw] at h
      exact absurd h (by simp)
  · intro h
    exact read_of_denotes h position

/-- **An argument is refused for why it does not fit.** -/
theorem Operand.read_eq_error_iff (kind : OperandKind) (position : Nat) (text : String)
    (flaw : Flaw) :
    Operand.read kind position text = .error flaw ↔ Misfit kind position text flaw := by
  constructor
  · intro h
    rcases denotes_or_misfit kind position text with ⟨operand, hoperand⟩ | ⟨other, hother⟩
    · rw [read_of_denotes hoperand position] at h
      exact absurd h (by simp)
    · rw [read_of_misfit hother] at h
      rwa [← Except.error.inj h]
  · exact read_of_misfit

/-! ## §2 All arguments -/

/-- What arguments denote, one by one. -/
inductive Denoted : List OperandKind → List String → List Operand → Prop where
  | nil : Denoted [] [] []
  | cons {kind : OperandKind} {text : String} {operand : Operand} {kinds : List OperandKind}
      {texts : List String} {operands : List Operand} :
      Denotes kind text operand → Denoted kinds texts operands →
      Denoted (kind :: kinds) (text :: texts) (operand :: operands)

/-- Why the leftmost of the arguments that do not fit does not fit, when the first one has the position
given. -/
def FirstMisfit (start : Nat) (kinds : List OperandKind) (texts : List String) (flaw : Flaw) : Prop :=
  ∃ i kind text, kinds[i]? = some kind ∧ texts[i]? = some text ∧ Misfit kind (start + i) text flaw ∧
    ∀ j < i, ∃ kind text operand, kinds[j]? = some kind ∧ texts[j]? = some text ∧
      Denotes kind text operand

theorem not_firstMisfit_nil (start : Nat) (texts : List String) (flaw : Flaw) :
    ¬ FirstMisfit start [] texts flaw := by
  rintro ⟨i, kind, text, hkind, -⟩
  exact absurd hkind (by simp)

/-- The first argument does not fit, or it fits and there is one behind it that does not. -/
theorem firstMisfit_cons_iff (start : Nat) (kind : OperandKind) (kinds : List OperandKind)
    (text : String) (texts : List String) (flaw : Flaw) :
    FirstMisfit start (kind :: kinds) (text :: texts) flaw ↔
      Misfit kind start text flaw ∨
        (∃ operand, Denotes kind text operand) ∧ FirstMisfit (start + 1) kinds texts flaw := by
  constructor
  · rintro ⟨i, kind', text', hkind, htext, hmisfit, hbefore⟩
    cases i with
    | zero =>
      obtain rfl := Option.some.inj hkind
      obtain rfl := Option.some.inj htext
      exact .inl hmisfit
    | succ i =>
      obtain ⟨_, _, operand, hfirst, hown, hdenotes⟩ := hbefore 0 (Nat.succ_pos i)
      obtain rfl := Option.some.inj hfirst
      obtain rfl := Option.some.inj hown
      rw [← Nat.add_assoc, Nat.add_right_comm] at hmisfit
      exact .inr ⟨⟨operand, hdenotes⟩, i, kind', text', hkind, htext, hmisfit,
        fun j hj => hbefore (j + 1) (Nat.succ_lt_succ hj)⟩
  · rintro (hmisfit | ⟨⟨operand, hdenotes⟩, i, kind', text', hkind, htext, hmisfit, hbefore⟩)
    · exact ⟨0, kind, text, rfl, rfl, hmisfit, fun j hj => absurd hj (Nat.not_lt_zero j)⟩
    · rw [Nat.add_right_comm, Nat.add_assoc] at hmisfit
      refine ⟨i + 1, kind', text', hkind, htext, hmisfit, fun j hj => ?_⟩
      cases j with
      | zero => exact ⟨kind, text, operand, rfl, rfl, hdenotes⟩
      | succ j => exact hbefore j (Nat.lt_of_succ_lt_succ hj)

theorem readOperands_cons_eq_error_iff (start : Nat) (kind : OperandKind) (kinds : List OperandKind)
    (text : String) (texts : List String) (flaw : Flaw) :
    readOperands start (kind :: kinds) (text :: texts) = .error flaw ↔
      Operand.read kind start text = .error flaw ∨
        (∃ operand, Operand.read kind start text = .ok operand) ∧
          readOperands (start + 1) kinds texts = .error flaw := by
  rw [readOperands]
  cases Operand.read kind start text with
  | error e => simp [bind, Except.bind]
  | ok operand =>
    cases readOperands (start + 1) kinds texts with
    | error e => simp [bind, Except.bind]
    | ok operands => simp [bind, Except.bind, pure, Except.pure]

/-- **Arguments are read as what they denote**, if there are as many as are asked for. -/
theorem readOperands_eq_ok_iff {kinds : List OperandKind} {texts : List String}
    (hlength : texts.length = kinds.length) (start : Nat) (operands : List Operand) :
    readOperands start kinds texts = .ok operands ↔ Denoted kinds texts operands := by
  induction kinds generalizing start texts operands with
  | nil =>
    obtain rfl := List.length_eq_zero_iff.1 hlength
    constructor
    · intro h
      obtain rfl : [] = operands := Except.ok.inj h
      exact .nil
    · rintro ⟨⟩
      rfl
  | cons kind kinds ih =>
    obtain ⟨text, texts, rfl⟩ := List.exists_cons_of_length_eq_add_one hlength
    have hrest := ih (Nat.succ.inj hlength) (start + 1)
    rw [readOperands_cons]
    constructor
    · rintro ⟨first, rest, hfirst, htail, rfl⟩
      exact .cons ((Operand.read_eq_ok_iff ..).1 hfirst) ((hrest rest).1 htail)
    · intro h
      cases h with
      | cons hfirst htail =>
        exact ⟨_, _, (Operand.read_eq_ok_iff ..).2 hfirst, (hrest _).2 htail, rfl⟩

/-- **Arguments are refused for the leftmost that does not fit.** -/
theorem readOperands_eq_error_iff {kinds : List OperandKind} {texts : List String}
    (hlength : texts.length = kinds.length) (start : Nat) (flaw : Flaw) :
    readOperands start kinds texts = .error flaw ↔ FirstMisfit start kinds texts flaw := by
  induction kinds generalizing start texts with
  | nil =>
    rw [iff_false_right (not_firstMisfit_nil start texts flaw)]
    simp [readOperands]
  | cons kind kinds ih =>
    obtain ⟨text, texts, rfl⟩ := List.exists_cons_of_length_eq_add_one hlength
    rw [readOperands_cons_eq_error_iff, firstMisfit_cons_iff, Operand.read_eq_error_iff,
      ih (Nat.succ.inj hlength)]
    simp only [Operand.read_eq_ok_iff]

/-- There are as many arguments as operands are asked for. -/
theorem Denoted.length_eq {kinds : List OperandKind} {texts : List String} {operands : List Operand}
    (h : Denoted kinds texts operands) : texts.length = kinds.length := by
  induction h with
  | nil => rfl
  | cons _ _ ih => rw [List.length_cons, List.length_cons, ih]

/-- Arguments denote operands in one way only. -/
theorem Denoted.unique {kinds : List OperandKind} {texts : List String} {operands others : List Operand}
    (h : Denoted kinds texts operands) (hothers : Denoted kinds texts others) : operands = others := by
  have hread := (readOperands_eq_ok_iff h.length_eq 1 operands).2 h
  rw [(readOperands_eq_ok_iff h.length_eq 1 others).2 hothers] at hread
  exact (Except.ok.inj hread).symm

theorem Denotes.kind_eq {kind : OperandKind} {text : String} {operand : Operand}
    (h : Denotes kind text operand) : operand.kind = kind := by
  cases h <;> rfl

/-- What arguments denote is of the kinds that are asked for. -/
theorem Denoted.kinds_eq {kinds : List OperandKind} {texts : List String} {operands : List Operand}
    (h : Denoted kinds texts operands) : operands.map Operand.kind = kinds := by
  induction h with
  | nil => rfl
  | cons hfirst _ ih => rw [List.map_cons, hfirst.kind_eq, ih]

end Assembly

/-! ## §3 Opcodes and operands -/

/-- The opcodes whose first operand receives the result: `LW`, and those with a register form or an
immediate form of an operation. -/
inductive Opcode.Receives : Opcode → Prop where
  | load : Receives .load
  | register (op : AluOp) : Receives (.register op)
  | immediate (op : AluOp) (notMult : op ≠ .mult) : Receives (.immediate op notMult)

theorem Opcode.writesFirst_iff (op : Opcode) : op.writesFirst = true ↔ op.Receives := by
  constructor
  · intro h
    cases op with
    | load => exact .load
    | register op => exact .register op
    | immediate op notMult => exact .immediate op notMult
    | store | branch | jump | jumpRegister | halt => exact absurd h (by simp [writesFirst, opcodeClass])
  · rintro ⟨⟩ <;> rfl

/-- Two opcodes have different mnemonics. -/
theorem Opcode.eq_of_mnemonic {op other : Opcode} (h : op.mnemonic = other.mnemonic) : op = other := by
  have hop := (ofMnemonic?_eq_some_iff other.mnemonic op).2 h.symm
  rw [(ofMnemonic?_eq_some_iff other.mnemonic other).2 rfl] at hop
  exact (Option.some.inj hop).symm

/-- A text is no mnemonic exactly if no opcode is called by it. -/
theorem Opcode.ofMnemonic?_eq_none_iff (text : String) :
    ofMnemonic? text = none ↔ ∀ op : Opcode, op.mnemonic ≠ text := by
  rw [Option.eq_none_iff_forall_ne_some]
  refine forall_congr' fun op => ?_
  rw [ne_eq, ofMnemonic?_eq_some_iff, ne_eq, eq_comm]

/-- An instruction with the operands for which its opcode asks is accepted. -/
theorem Instruction.check_of_kinds {i : Instruction}
    (h : i.operands.map Assembly.Operand.kind = i.opcode.operands) : i.check = .ok () := by
  cases i with
  | immediate op rd rs1 value =>
    -- The product goes by the opcode of its register form, which asks for other operands.
    refine (check_immediate_iff ..).2 ?_
    rintro rfl
    exact absurd h (by simp [operands, opcode, AluOp.immediateForm?, Assembly.Operand.kind,
      Opcode.operands])
  | load | store | register | branch | jump | jumpRegister | halt => rfl

namespace Assembly

theorem Operand.kind_eq_iff (operand : Operand) (kind : OperandKind) :
    operand.kind = kind ↔
      match kind with
      | .register => ∃ r, operand = .register r
      | .indirect => ∃ a, operand = .indirect a
      | .immediate => ∃ w, operand = .immediate w
      | .label => ∃ name, operand = .label name := by
  cases operand <;> cases kind <;> simp [Operand.kind]

/-- **Operands of the kinds that an opcode asks for** are those of an instruction with this opcode. -/
theorem exists_instruction_of_kinds {opcode : Opcode} {operands : List Operand}
    (h : operands.map Operand.kind = opcode.operands) :
    ∃ i : Instruction, i.opcode = opcode ∧ i.operands = operands := by
  -- The kinds say how many operands there are, and what each of them is.
  cases opcode <;>
    simp only [Opcode.operands, List.map_eq_cons_iff, List.map_eq_nil_iff, Operand.kind_eq_iff] at h
  case load =>
    obtain ⟨_, _, rfl, ⟨rd, rfl⟩, _, _, rfl, ⟨source, rfl⟩, rfl⟩ := h
    exact ⟨.load rd source, rfl, rfl⟩
  case store =>
    obtain ⟨_, _, rfl, ⟨target, rfl⟩, _, _, rfl, ⟨rs, rfl⟩, rfl⟩ := h
    exact ⟨.store target rs, rfl, rfl⟩
  case register op =>
    obtain ⟨_, _, rfl, ⟨rd, rfl⟩, _, _, rfl, ⟨rs1, rfl⟩, _, _, rfl, ⟨rs2, rfl⟩, rfl⟩ := h
    exact ⟨.register op rd rs1 rs2, rfl, rfl⟩
  case immediate op notMult =>
    obtain ⟨_, _, rfl, ⟨rd, rfl⟩, _, _, rfl, ⟨rs1, rfl⟩, _, _, rfl, ⟨w, rfl⟩, rfl⟩ := h
    exact ⟨.immediate op rd rs1 w, Instruction.opcode_immediate notMult rd rs1 w, rfl⟩
  case branch condition =>
    obtain ⟨_, _, rfl, ⟨rs, rfl⟩, _, _, rfl, ⟨name, rfl⟩, rfl⟩ := h
    exact ⟨.branch condition rs name, rfl, rfl⟩
  case jump linking =>
    obtain ⟨_, _, rfl, ⟨name, rfl⟩, rfl⟩ := h
    exact ⟨.jump linking name, rfl, rfl⟩
  case jumpRegister linking =>
    obtain ⟨_, _, rfl, ⟨rs, rfl⟩, rfl⟩ := h
    exact ⟨.jumpRegister linking rs, rfl, rfl⟩
  case halt =>
    obtain rfl := h
    exact ⟨.halt, rfl, rfl⟩

/-- Puts an instruction together by the class of its opcode and by the operation that the opcode performs.
The opcodes of a class that take the same operands are told apart by one of them. -/
def buildByClass? (opcode : Opcode) (operands : List Operand) : Option Instruction :=
  match opcode.opcodeClass, opcode.aluOp?, operands with
  | .load, _, [.register rd, .indirect source] => some (.load rd source)
  | .store, _, [.indirect target, .register rs] => some (.store target rs)
  | .register, some op, [.register rd, .register rs1, .register rs2] =>
    some (.register op rd rs1 rs2)
  | .immediate, some op, [.register rd, .register rs1, .immediate value] =>
    some (.immediate op rd rs1 value)
  | .jump, _, [.register rs, .label label] =>
    some (.branch (if opcode = .branch .zero then .zero else .notZero) rs label)
  | .jump, _, [.label label] => some (.jump (opcode = .jump true) label)
  | .jump, _, [.register rs] => some (.jumpRegister (opcode = .jumpRegister true) rs)
  | .halt, _, [] => some .halt
  | _, _, _ => none

/-- An instruction is put together by class from its opcode and its operands, if a mnemonic can write
it. -/
theorem buildByClass?_eq_some {i : Instruction} (h : i.check = .ok ()) :
    buildByClass? i.opcode i.operands = some i := by
  cases i with
  | immediate op rd rs1 value =>
    rw [Instruction.opcode_immediate ((Instruction.check_immediate_iff ..).1 h)]
    rfl
  | branch condition rs label => cases condition <;> rfl
  | jump linking label | jumpRegister linking rs => cases linking <;> rfl
  | load | store | register | halt => rfl

/-- **The tables of opcodes line up**: operands of the kinds that an opcode asks for make an instruction,
and the same one whether the opcode itself is looked at or its class and its operation. -/
theorem exists_build?_of_kinds {opcode : Opcode} {operands : List Operand}
    (h : operands.map Operand.kind = opcode.operands) :
    ∃ i, build? opcode operands = some i ∧ buildByClass? opcode operands = some i := by
  obtain ⟨i, rfl, rfl⟩ := exists_instruction_of_kinds h
  have hcheck : i.check = .ok () := Instruction.check_of_kinds h
  exact ⟨i, (build?_eq_some_iff ..).2 ⟨hcheck, rfl, rfl⟩, buildByClass?_eq_some hcheck⟩

/-- The result would go to `R0` exactly if the first operand receives it and is that register. -/
theorem writesZero_eq_true_iff (opcode : Opcode) (operands : List Operand) :
    writesZero opcode operands = true ↔
      opcode.Receives ∧ operands.head? = some (.register .zero) := by
  rw [writesZero, Bool.and_eq_true, opcode.writesFirst_iff, beq_iff_eq]

/-! ## §4 The verdict -/

/-- What comes of a mnemonic and its arguments. Each rule but the first supposes that the questions of
those before it have been answered with yes. -/
inductive Verdict (mnemonic : String) (arguments : List String) : Except Flaw Instruction → Prop where
  | unknown : (∀ op : Opcode, op.mnemonic ≠ mnemonic) →
      Verdict mnemonic arguments (.error (.unknownOpcode mnemonic))
  | count {op : Opcode} : op.mnemonic = mnemonic → arguments.length ≠ op.operands.length →
      Verdict mnemonic arguments
        (.error (.argumentCount mnemonic op.operands.length arguments.length))
  | misfit {op : Opcode} {flaw : Flaw} : op.mnemonic = mnemonic →
      arguments.length = op.operands.length → FirstMisfit 1 op.operands arguments flaw →
      Verdict mnemonic arguments (.error flaw)
  | readOnly {op : Opcode} {operands : List Operand} : op.mnemonic = mnemonic →
      Denoted op.operands arguments operands → op.Receives →
      operands.head? = some (.register .zero) → Verdict mnemonic arguments (.error .readOnly)
  | instruction {i : Instruction} : i.opcode.mnemonic = mnemonic →
      Denoted i.opcode.operands arguments i.operands →
      ¬ (i.opcode.Receives ∧ i.operands.head? = some (.register .zero)) →
      Verdict mnemonic arguments (.ok i)

/-- What the reader does with an opcode that exists. -/
theorem readInstruction_mnemonic (op : Opcode) (arguments : List String) :
    readInstruction op.mnemonic arguments =
      if arguments.length ≠ op.operands.length then
        .error (.argumentCount op.mnemonic op.operands.length arguments.length)
      else
        match readOperands 1 op.operands arguments with
        | .error e => .error e
        | .ok operands =>
          if writesZero op operands then .error .readOnly
          else
            match build? op operands with
            | some i => .ok i
            | none => .error (.unknownOpcode op.mnemonic) := by
  rw [readInstruction, (Opcode.ofMnemonic?_eq_some_iff op.mnemonic op).2 rfl]
  rfl

theorem verdict_readInstruction (mnemonic : String) (arguments : List String) :
    Verdict mnemonic arguments (readInstruction mnemonic arguments) := by
  cases hopcode : Opcode.ofMnemonic? mnemonic with
  | none =>
    rw [readInstruction, hopcode]
    exact .unknown ((Opcode.ofMnemonic?_eq_none_iff mnemonic).1 hopcode)
  | some op =>
    obtain rfl := (Opcode.ofMnemonic?_eq_some_iff mnemonic op).1 hopcode
    rw [readInstruction_mnemonic]
    by_cases hlength : arguments.length = op.operands.length
    · rw [if_neg (not_not_intro hlength)]
      cases hread : readOperands 1 op.operands arguments with
      | error flaw => exact .misfit rfl hlength ((readOperands_eq_error_iff hlength 1 flaw).1 hread)
      | ok operands =>
        have hdenoted := (readOperands_eq_ok_iff hlength 1 operands).1 hread
        by_cases hzero : writesZero op operands = true
        · simp only [if_pos hzero]
          obtain ⟨hreceives, hhead⟩ := (writesZero_eq_true_iff op operands).1 hzero
          exact .readOnly rfl hdenoted hreceives hhead
        · simp only [if_neg hzero]
          obtain ⟨i, hbuild, -⟩ := exists_build?_of_kinds hdenoted.kinds_eq
          rw [hbuild]
          obtain ⟨-, rfl, rfl⟩ := (build?_eq_some_iff op operands i).1 hbuild
          exact .instruction rfl hdenoted (mt (writesZero_eq_true_iff _ _).2 hzero)
    · rw [if_pos hlength]
      exact .count rfl hlength

theorem readInstruction_of_verdict {mnemonic : String} {arguments : List String}
    {result : Except Flaw Instruction} (h : Verdict mnemonic arguments result) :
    readInstruction mnemonic arguments = result := by
  cases h with
  | unknown hnone =>
    rw [readInstruction, (Opcode.ofMnemonic?_eq_none_iff mnemonic).2 hnone]
  | @count op hop hlength =>
    subst hop
    rw [readInstruction_mnemonic, if_pos hlength]
  | @misfit op flaw hop hlength hmisfit =>
    subst hop
    rw [readInstruction_mnemonic, if_neg (not_not_intro hlength),
      (readOperands_eq_error_iff hlength 1 flaw).2 hmisfit]
  | @readOnly op operands hop hdenoted hreceives hhead =>
    subst hop
    have hread := (readOperands_eq_ok_iff hdenoted.length_eq 1 operands).2 hdenoted
    have hzero := (writesZero_eq_true_iff op operands).2 ⟨hreceives, hhead⟩
    rw [readInstruction_mnemonic, if_neg (not_not_intro hdenoted.length_eq), hread]
    simp only [if_pos hzero]
  | @instruction i hop hdenoted hzero =>
    subst hop
    have hread := (readOperands_eq_ok_iff hdenoted.length_eq 1 i.operands).2 hdenoted
    have hcheck := Instruction.check_of_kinds hdenoted.kinds_eq
    have hbuild := (build?_eq_some_iff i.opcode i.operands i).2 ⟨hcheck, rfl, rfl⟩
    rw [readInstruction_mnemonic, if_neg (not_not_intro hdenoted.length_eq), hread]
    simp only [if_neg (mt (writesZero_eq_true_iff _ _).1 hzero), hbuild]

/-- **The reader gives the verdict**, and no other. -/
theorem readInstruction_eq_iff (mnemonic : String) (arguments : List String)
    (result : Except Flaw Instruction) :
    readInstruction mnemonic arguments = result ↔ Verdict mnemonic arguments result := by
  constructor
  · rintro rfl
    exact verdict_readInstruction mnemonic arguments
  · exact readInstruction_of_verdict

/-- The reader's own complaints are not about the fit of an argument. -/
theorem FirstMisfit.ne {start : Nat} {kinds : List OperandKind} {texts : List String} {flaw : Flaw}
    (h : FirstMisfit start kinds texts flaw) :
    (∀ text, flaw ≠ .unknownOpcode text) ∧
      (∀ opcode expected found, flaw ≠ .argumentCount opcode expected found) ∧ flaw ≠ .readOnly := by
  obtain ⟨i, kind, text, -, -, hmisfit, -⟩ := h
  cases hmisfit <;> simp

/-- A mnemonic is unknown only if it is none of all. -/
theorem readInstruction_unknown_iff (mnemonic : String) (arguments : List String) :
    (∃ text, readInstruction mnemonic arguments = .error (.unknownOpcode text)) ↔
      mnemonic ∉ Opcode.all.map Opcode.mnemonic := by
  simp only [readInstruction_eq_iff]
  constructor
  · rintro ⟨text, h⟩ hmem
    obtain ⟨op, -, hop⟩ := List.mem_map.1 hmem
    cases h with
    | unknown hnone => exact hnone op hop
    | misfit _ _ hmisfit => exact hmisfit.ne.1 text rfl
  · intro hnot
    apply Exists.intro mnemonic
    exact .unknown fun op hop => hnot (List.mem_map.2 ⟨op, op.mem_all, hop⟩)

/-- The number of arguments is complained about only if it is not that of the operands. -/
theorem readInstruction_count_iff (op : Opcode) (arguments : List String) :
    (∃ opcode expected found,
      readInstruction op.mnemonic arguments = .error (.argumentCount opcode expected found)) ↔
        arguments.length ≠ op.operands.length := by
  simp only [readInstruction_eq_iff]
  constructor
  · rintro ⟨opcode, expected, found, h⟩
    cases h with
    | count hop hlength => rwa [Opcode.eq_of_mnemonic hop] at hlength
    | misfit _ _ hmisfit => exact absurd rfl (hmisfit.ne.2.1 opcode expected found)
  · intro hlength
    exact ⟨_, _, _, .count rfl hlength⟩

/-- Once its arguments fit, an instruction is refused only if its result would go to `R0`. -/
theorem readInstruction_readOnly_iff {op : Opcode} {arguments : List String} {operands : List Operand}
    (hdenoted : Denoted op.operands arguments operands) :
    readInstruction op.mnemonic arguments = .error .readOnly ↔
      op.Receives ∧ operands.head? = some (.register .zero) := by
  rw [readInstruction_eq_iff]
  constructor
  · intro h
    cases h with
    | misfit _ _ hmisfit => exact absurd rfl hmisfit.ne.2.2
    | readOnly hop hothers hreceives hhead =>
      obtain rfl := Opcode.eq_of_mnemonic hop
      obtain rfl := hdenoted.unique hothers
      exact ⟨hreceives, hhead⟩
  · rintro ⟨hreceives, hhead⟩
    exact .readOnly rfl hdenoted hreceives hhead

/-- **The verdict on an instruction is exact.** The first of the questions that is answered with no
decides, and if there is none, then the instruction is the one with that opcode whose operands are
what the arguments denote. There are thirty-four mnemonics, and a mnemonic is unknown exactly if it is
none of them; no opcode is left without an instruction once its arguments fit, and that is the one of its
class and of the operation that it performs. -/
theorem readInstruction_exact (mnemonic : String) (arguments : List String) :
    (∀ result, readInstruction mnemonic arguments = result ↔ Verdict mnemonic arguments result) ∧
    (Opcode.all.map Opcode.mnemonic).length = 34 ∧ (Opcode.all.map Opcode.mnemonic).Nodup ∧
    ((∃ text, readInstruction mnemonic arguments = .error (.unknownOpcode text)) ↔
      mnemonic ∉ Opcode.all.map Opcode.mnemonic) ∧
    ∀ op : Opcode, op.mnemonic = mnemonic →
      ((∃ opcode expected found,
        readInstruction mnemonic arguments = .error (.argumentCount opcode expected found)) ↔
          arguments.length ≠ op.operands.length) ∧
      ∀ operands, Denoted op.operands arguments operands →
        (∃ i, build? op operands = some i ∧ buildByClass? op operands = some i) ∧
          (readInstruction mnemonic arguments = .error .readOnly ↔
            op.Receives ∧ operands.head? = some (.register .zero)) := by
  refine ⟨readInstruction_eq_iff mnemonic arguments, ?_, by decide,
    readInstruction_unknown_iff mnemonic arguments, ?_⟩
  · rw [List.length_map, Opcode.length_all]
  rintro op rfl
  refine ⟨readInstruction_count_iff op arguments, fun operands hdenoted => ⟨?_, ?_⟩⟩
  · exact exists_build?_of_kinds hdenoted.kinds_eq
  · exact readInstruction_readOnly_iff hdenoted

end Assembly

end Dlx
