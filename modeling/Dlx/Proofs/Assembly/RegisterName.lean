import Dlx.Proofs.Assembly.Verdict

/-!
# Names of registers

A register is named in two places that do not know of each other: a user of a machine calls it by its
name, and an argument of an instruction is its name. Both readings know the same names, and they refuse
all other texts for the same one of two reasons: the text is not shaped like a name, or it is and there is
no such register.

- **§1** what a name denotes (`Register.Reading`)
- **§2** the same text as an argument (`Register.asArgument`)
- **§3** both readings agree (`Register.Agreement`)
-/

namespace Dlx

open Decimal (Numeral)

namespace Register

/-! ## §1 Names -/

/-- What comes of a text as the name of a register: the letter and a numeral of an index. Zeros in front
of the numeral do not matter; an index at or above the bound for numerals is none. -/
inductive Reading (text : String) : Except Flaw Register → Prop where
  | register {digits : List Char} {r : Register} :
      text.toList = 'R' :: digits → Numeral digits r.index → Reading text (.ok r)
  | outOfRange {digits : List Char} {n : Nat} :
      text.toList = 'R' :: digits → Numeral digits n → 32 ≤ n → n < indexBound →
      Reading text (.error (.outOfRange n))
  | malformed :
      (∀ digits n, text.toList = 'R' :: digits → Numeral digits n → indexBound ≤ n) →
      Reading text (.error (.malformed text))

theorem ofIndex_of_le {n : Nat} (h : 32 ≤ n) : ofIndex n = .error (.outOfRange n) := by
  rw [ofIndex, ofNat?, dif_neg (Nat.not_lt.2 h)]

/-- A name is read as the index in it. -/
theorem ofName_of_index {text : String} {digits : List Char} {n : Nat}
    (htext : text.toList = 'R' :: digits) (hn : index? digits = some n) : ofName text = ofIndex n := by
  rw [ofName, htext]
  simp only [hn]

theorem reading_ofName (text : String) : Reading text (ofName text) := by
  by_cases h : ∃ digits n, text.toList = 'R' :: digits ∧ index? digits = some n
  · obtain ⟨digits, n, htext, hn⟩ := h
    obtain ⟨hdigits, hbound⟩ := (index?_eq_some_iff digits n).1 hn
    rw [ofName_of_index htext hn]
    by_cases hlt : n < 32
    · -- The index is that of a register.
      have hr : ofIndex n = .ok ⟨⟨n, hlt⟩⟩ := by rw [ofIndex, ofNat?, dif_pos hlt]
      rw [hr]
      exact .register htext hdigits
    · have hle : 32 ≤ n := Nat.not_lt.1 hlt
      rw [ofIndex_of_le hle]
      exact .outOfRange htext hdigits hle hbound
  · have hmalformed : ofName text = .error (.malformed text) := by
      unfold ofName
      split
      · rename_i digits htext
        split
        · rename_i n hn
          exact absurd ⟨digits, n, htext, hn⟩ h
        · rfl
      · rfl
    rw [hmalformed]
    refine .malformed fun digits n htext hdigits => Nat.not_lt.1 fun hlt => ?_
    exact h ⟨digits, n, htext, (index?_eq_some_iff digits n).2 ⟨hdigits, hlt⟩⟩

theorem ofName_of_reading {text : String} {result : Except Flaw Register} (h : Reading text result) :
    ofName text = result := by
  cases h with
  | @register digits r htext hdigits =>
    have hn := (index?_eq_some_iff digits r.index).2 ⟨hdigits, r.index_lt_bound⟩
    rw [ofName_of_index htext hn, ofIndex, ofNat?_index]
  | @outOfRange digits n htext hdigits hle hlt =>
    have hn := (index?_eq_some_iff digits n).2 ⟨hdigits, hlt⟩
    rw [ofName_of_index htext hn, ofIndex_of_le hle]
  | malformed hbound =>
    -- Any other reading would be that of a numeral below the bound.
    have hreading := reading_ofName text
    generalize ofName text = result at hreading ⊢
    cases hreading with
    | register htext hdigits =>
      exact absurd (hbound _ _ htext hdigits) (Nat.not_le.2 (index_lt_bound _))
    | outOfRange htext hdigits _ hlt => exact absurd (hbound _ _ htext hdigits) (Nat.not_le.2 hlt)
    | malformed _ => rfl

/-- **A name is read as what it denotes**, and as nothing else. -/
theorem ofName_eq_iff (text : String) (result : Except Flaw Register) :
    ofName text = result ↔ Reading text result := by
  constructor
  · rintro rfl
    exact reading_ofName text
  · exact ofName_of_reading

/-! ## §2 Arguments -/

/-- What is said of a text as an argument, by what comes of it as a name. -/
def asArgument {α : Type} (value : Register → α) (position : Nat) (text : String) :
    Except Flaw Register → Except Assembly.Flaw α
  | .ok r => .ok (value r)
  | .error (.outOfRange _) => .error (.registerOutOfRange text)
  | .error (.malformed _) => .error (.operandExpected .register position text)

/-- **An argument is read like a name** where a register is asked for. -/
theorem read_register (position : Nat) (text : String) :
    Assembly.Operand.read .register position text = asArgument .register position text (ofName text) := by
  have hreading := reading_ofName text
  generalize ofName text = result at hreading ⊢
  cases hreading with
  | register htext hdigits =>
    apply Assembly.Operand.read_of_denotes
    apply Assembly.Denotes.register
    rw [htext]
    exact .register hdigits (index_lt_bound _)
  | outOfRange htext hdigits hle hlt =>
    apply Assembly.Operand.read_of_misfit
    refine Assembly.Misfit.noRegister ?_ hle
    rw [htext]
    exact .register hdigits hlt
  | malformed hbound =>
    apply Assembly.Operand.read_of_misfit
    apply Assembly.Misfit.register
    intro n hwritten
    generalize htext : text.toList = cs at hwritten
    cases hwritten with
    | register hdigits hlt => exact absurd (hbound _ _ htext hdigits) (Nat.not_le.2 hlt)

/-- The only argument of a jump through a register is read like a name. -/
theorem readInstruction_jumpRegister (linking : Bool) (text : String) :
    Assembly.readInstruction (Opcode.jumpRegister linking).mnemonic [text] =
      asArgument (.jumpRegister linking) 1 text (ofName text) := by
  have hread := read_register 1 text
  rw [Assembly.readInstruction_mnemonic]
  simp only [Opcode.operands, Assembly.readOperands, hread]
  rcases ofName text with (_ | _) | r <;> rfl

/-! ## §3 Agreement -/

/-- A reading of a text as an argument agrees with the one as a name: it gives the value of the same
register, or finds the same thing wrong. -/
structure Agreement {α : Type} (value : Register → α) (position : Nat) (text : String)
    (result : Except Assembly.Flaw α) : Prop where
  register : ∀ r, ofName text = .ok r ↔ result = .ok (value r)
  outOfRange : (∃ n, ofName text = .error (.outOfRange n)) ↔ result = .error (.registerOutOfRange text)
  malformed : (∃ other, ofName text = .error (.malformed other)) ↔
    result = .error (.operandExpected .register position text)

theorem agreement_asArgument {α : Type} {value : Register → α}
    (hvalue : ∀ q r, value q = value r → q = r) (position : Nat) (text : String) :
    Agreement value position text (asArgument value position text (ofName text)) := by
  rcases hname : ofName text with (other | n) | q
  · constructor <;> simp [hname, asArgument]
  · constructor <;> simp [hname, asArgument]
  · constructor
    · intro r
      rw [hname, asArgument, Except.ok.injEq, Except.ok.injEq]
      exact ⟨congrArg value, hvalue q r⟩
    · simp [hname, asArgument]
    · simp [hname, asArgument]

/-- **Both readings of names agree.** For every text, the name denotes a register exactly if the argument
is accepted as that register, at any position where one is asked for and in particular in `JR` and `JALR`;
the index is out of range exactly if the argument is refused for naming a register that does not exist;
and the name is malformed exactly if the argument is refused for not being a register. Which of these
comes of a text depends on the numeral behind the letter only. -/
theorem ofName_agrees (text : String) :
    (∀ result, ofName text = result ↔ Reading text result) ∧
    (∀ position, Agreement .register position text (Assembly.Operand.read .register position text)) ∧
    Agreement (.jumpRegister false) 1 text (Assembly.readInstruction "JR" [text]) ∧
    Agreement (.jumpRegister true) 1 text (Assembly.readInstruction "JALR" [text]) := by
  have hjump : ∀ linking, Agreement (.jumpRegister linking) 1 text
      (Assembly.readInstruction (Opcode.jumpRegister linking).mnemonic [text]) := by
    intro linking
    rw [readInstruction_jumpRegister]
    exact agreement_asArgument (fun q r h => (Instruction.jumpRegister.inj h).2) 1 text
  refine ⟨ofName_eq_iff text, fun position => ?_, hjump false, hjump true⟩
  rw [read_register]
  exact agreement_asArgument (fun q r h => Assembly.Operand.register.inj h) position text

end Register

end Dlx
