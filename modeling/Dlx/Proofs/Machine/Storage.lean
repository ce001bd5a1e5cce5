import Dlx.Proofs.Machine.Dispatch

/-!
# Stores and loads

What has been stored is loaded from where it was stored, and from nowhere else. Where that is depends on
the sum of an offset and of the word in a base register. The sum is that of the integers and does not
wrap around, so that two operands lead to the same cell only if their sums are the same integer.

- **§1** the sum of an operand (`State.sum?`), and the integers at which a cell starts (`Address.Starts`)
- **§2** carrying out a store, and carrying out a load
- **§3** a load behind a store
-/

namespace Dlx

/-! ## §1 Sums -/

/-- A cell starts at an integer: it is the value of a word, and a multiple of four. -/
def Address.Starts (i : Int) : Prop :=
  Word.least ≤ i ∧ i ≤ Word.greatest ∧ i % 4 = 0

theorem Address.starts_iff (i : Int) :
    Address.Starts i ↔ ∃ a : Address, a.toInt = i ∧ a.isAligned = true := by
  constructor
  · rintro ⟨hlow, hhigh, hmod⟩
    have hword : Word.ofInt? i = some (Int32.ofInt i) := if_pos ⟨hlow, hhigh⟩
    have hvalue := Word.toInt_of_ofInt? i _ hword
    refine ⟨Int32.ofInt i, hvalue, ?_⟩
    simp only [isAligned, hvalue, hmod, beq_self_eq_true]
  · rintro ⟨a, rfl, ha⟩
    obtain ⟨hlow, hhigh⟩ := Word.toInt_range a
    simp only [isAligned, beq_iff_eq] at ha
    exact ⟨hlow, hhigh, ha⟩

namespace State

/-- The sum of an offset and of the word in its base, as an integer. -/
def sum? (s : State) (operand : Indirect) : Option Int :=
  (s.registers.read operand.base).map fun base => operand.offset.toInt + base.toInt

/-- **The address of an operand is its sum**, if a cell starts there. -/
theorem address_eq_ok_iff_sum? (s : State) (operand : Indirect) (a : Address) :
    s.address operand = .ok a ↔ s.sum? operand = some a.toInt ∧ a.isAligned = true := by
  rw [address_eq_ok_iff, sum?, Option.map_eq_some_iff]
  constructor
  · rintro ⟨base, hbase, hsum, ha⟩
    exact ⟨⟨base, hbase, hsum.symm⟩, ha⟩
  · rintro ⟨⟨base, hbase, hsum⟩, ha⟩
    exact ⟨base, hbase, hsum.symm, ha⟩

/-- A sum at which no cell starts is reported as it is. -/
theorem address_of_not_starts {s : State} {operand : Indirect} {sum : Int}
    (hsum : s.sum? operand = some sum) (h : ¬ Address.Starts sum) :
    s.address operand = .error (.invalidAddress sum operand) := by
  rw [sum?] at hsum
  obtain ⟨base, hbase, rfl⟩ := Option.map_eq_some_iff.1 hsum
  refine (address_eq_error_iff ..).2 (.inr ⟨base, hbase, ?_, rfl⟩)
  -- A word with that value at which a cell starts would make it an integer at which one starts.
  rw [Option.filter_eq_none_iff]
  intro a ha haligned
  exact h ((Address.starts_iff _).2 ⟨a, (Word.ofInt?_eq_some_iff _ a).1 ha, haligned⟩)

/-- **Different sums never lead to the same cell**, whatever the states and the operands. -/
theorem sum?_eq_of_address_eq {s t : State} {x y : Indirect} {a : Address} (hx : s.address x = .ok a)
    (hy : t.address y = .ok a) : s.sum? x = t.sum? y :=
  ((s.address_eq_ok_iff_sum? x a).1 hx).1.trans ((t.address_eq_ok_iff_sum? y a).1 hy).1.symm

/-! ## §2 Carrying out -/

/-- The state after a word has been stored. -/
def stored (s : State) (a : Address) (w : Word) : State :=
  { s with memory := s.memory.put a w }

/-- No register takes part in a store. -/
theorem address_stored (s : State) (a : Address) (w : Word) (operand : Indirect) :
    (s.stored a w).address operand = s.address operand := rfl

end State

namespace Instruction

variable (p : Program) (line : Nat) (s : State) (guard : Option JumpGuard)

/-- **What a store does**: its address is looked at first, and then the register. -/
theorem execute_store (target : Indirect) (rs : Register) :
    (store target rs).execute p line s guard =
      match s.address target with
      | .error fault => ⟨.error fault, s, guard⟩
      | .ok a =>
        match s.registers.read rs with
        | none => ⟨.error (.noValue (.register rs)), s, guard⟩
        | some w => ⟨.ok .next, s.stored a w, guard⟩ := by
  cases haddress : s.address target with
  | error fault => simp [execute, effect, haddress, bind, Except.bind]
  | ok a =>
    cases hread : s.registers.read rs with
    | none => simp [execute, effect, haddress, State.fetch, hread, bind, Except.bind]
    | some w =>
      -- A cell starts at the address, and so memory does not refuse it.
      have ha := ((s.address_eq_ok_iff_sum? target a).1 haddress).2
      simp [execute, effect, haddress, State.fetch, hread, bind, Except.bind, pure, Except.pure,
        Effect.perform, Memory.write_of_isAligned ha, State.stored]

/-- **What a load does**: its address is looked at first, and then the cell. -/
theorem execute_load (rd : Register) (source : Indirect) :
    (load rd source).execute p line s guard =
      match s.address source with
      | .error fault => ⟨.error fault, s, guard⟩
      | .ok a =>
        match s.memory.read a with
        | none => ⟨.error (.noValue (.memory a)), s, guard⟩
        | some w => ⟨.ok .next, s.writeRegister rd w, guard⟩ := by
  cases haddress : s.address source with
  | error fault => simp [execute, effect, haddress, bind, Except.bind]
  | ok a =>
    cases hread : s.memory.read a <;>
      simp [execute, effect, haddress, State.fetchMemory, hread, bind, Except.bind, pure, Except.pure,
        Effect.perform]

/-- A store succeeds exactly if there are an address and a word. -/
theorem execute_store_eq_ok_iff {p : Program} {line : Nat} {s t : State} {guard g : Option JumpGuard}
    {target : Indirect} {rs : Register} {flow : Flow} :
    (store target rs).execute p line s guard = ⟨.ok flow, t, g⟩ ↔
      ∃ a w, s.address target = .ok a ∧ s.registers.read rs = some w ∧ flow = .next ∧
        t = s.stored a w ∧ g = guard := by
  rw [execute_store]
  cases s.address target with
  | error fault => simp
  | ok a => cases s.registers.read rs <;> simp [eq_comm]

/-- **When a store succeeds**: both registers hold words, and a cell starts at the sum. -/
theorem result_execute_store_iff (target : Indirect) (rs : Register) :
    (∃ flow, ((store target rs).execute p line s guard).result = .ok flow) ↔
      ∃ sum w, s.sum? target = some sum ∧ s.registers.read rs = some w ∧ Address.Starts sum := by
  constructor
  · rintro ⟨flow, hflow⟩
    rcases hstore : (store target rs).execute p line s guard with ⟨result, t, g⟩
    rw [hstore] at hflow
    obtain rfl : result = .ok flow := hflow
    obtain ⟨a, w, haddress, hread, -⟩ := execute_store_eq_ok_iff.1 hstore
    obtain ⟨hsum, ha⟩ := (s.address_eq_ok_iff_sum? target a).1 haddress
    exact ⟨a.toInt, w, hsum, hread, (Address.starts_iff _).2 ⟨a, rfl, ha⟩⟩
  · rintro ⟨sum, w, hsum, hread, hstarts⟩
    obtain ⟨a, rfl, ha⟩ := (Address.starts_iff sum).1 hstarts
    have haddress := (s.address_eq_ok_iff_sum? target a).2 ⟨hsum, ha⟩
    have hstore : (store target rs).execute p line s guard = ⟨.ok .next, s.stored a w, guard⟩ :=
      execute_store_eq_ok_iff.2 ⟨a, w, haddress, hread, rfl, rfl, rfl⟩
    exact ⟨.next, congrArg Execution.result hstore⟩

/-! ## §3 A load behind a store -/

/-- From the cell of a store its word is loaded. -/
theorem execute_load_stored {source : Indirect} {a : Address} (haddress : s.address source = .ok a)
    (w : Word) {rd : Register} (hrd : rd ≠ .zero) :
    ((load rd source).execute p line (s.stored a w) guard).result = .ok .next ∧
      ((load rd source).execute p line (s.stored a w) guard).state.registers.read rd = some w := by
  have ha := ((s.address_eq_ok_iff_sum? source a).1 haddress).2
  have hread : (s.stored a w).memory.read a = some w := by
    rw [State.stored, Memory.read_put ha, if_pos rfl]
  have hwrite : ((s.stored a w).writeRegister rd w).registers.read rd = some w := by
    rw [State.writeRegister, RegisterFile.read_write, if_pos ⟨rfl, hrd⟩]
  simp only [execute_load, State.address_stored, haddress, hread, hwrite, and_self]

/-- From any other cell the same is loaded as without the store, and where nothing is loaded it is for the
same reason. -/
theorem execute_load_of_ne {source : Indirect} {a : Address} (ha : a.isAligned = true)
    (hne : s.address source ≠ .ok a) (w : Word) (rd : Register) :
    ((load rd source).execute p line (s.stored a w) guard).result =
        ((load rd source).execute p line s guard).result ∧
      ((load rd source).execute p line (s.stored a w) guard).state.registers =
        ((load rd source).execute p line s guard).state.registers := by
  rw [execute_load, execute_load, State.address_stored]
  cases haddress : s.address source with
  | error fault => exact ⟨rfl, rfl⟩
  | ok b =>
    have hb : b ≠ a := fun heq => hne (heq ▸ haddress)
    have hread : (s.stored a w).memory.read b = s.memory.read b := by
      rw [State.stored, Memory.read_put ha, if_neg hb]
    simp only [hread]
    cases s.memory.read b with
    | none => exact ⟨rfl, rfl⟩
    | some v => exact ⟨rfl, rfl⟩

/-- **Stores and loads obey the law of memory, with exact addresses.** In any state, a store succeeds
exactly if its base and its register hold words and a cell starts at its sum. Then it changes the one cell
at that integer and no register, and a load with the same sum puts the stored word into its register,
while a load with any other sum, or without one, does what it does without the store. Different sums
never lead to the same cell, and a sum that is no word is reported as it is. -/
theorem store_load_exact (target : Indirect) (rs : Register) :
    ((∃ flow, ((store target rs).execute p line s guard).result = .ok flow) ↔
      ∃ sum w, s.sum? target = some sum ∧ s.registers.read rs = some w ∧ Address.Starts sum) ∧
    (∀ flow t g, (store target rs).execute p line s guard = ⟨.ok flow, t, g⟩ →
      ∃ sum w, s.sum? target = some sum ∧ s.registers.read rs = some w ∧
        t.registers = s.registers ∧
        (∀ a, t.memory.read a = if a.toInt = sum then some w else s.memory.read a) ∧
        ∀ (q : Program) (next : Nat) (h : Option JumpGuard) (rd : Register) (source : Indirect),
          rd ≠ .zero →
          (s.sum? source = some sum →
            ((load rd source).execute q next t h).result = .ok .next ∧
              ((load rd source).execute q next t h).state.registers.read rd = some w) ∧
          (s.sum? source ≠ some sum →
            ((load rd source).execute q next t h).result =
                ((load rd source).execute q next s h).result ∧
              ((load rd source).execute q next t h).state.registers.read rd =
                ((load rd source).execute q next s h).state.registers.read rd)) ∧
    (∀ (t : State) (x y : Indirect) (a : Address), s.address x = .ok a → t.address y = .ok a →
      ∃ sum, s.sum? x = some sum ∧ t.sum? y = some sum) ∧
    ∀ (operand : Indirect) (sum : Int), s.sum? operand = some sum →
      sum < Word.least ∨ Word.greatest < sum → ∀ r,
        ((store operand r).execute p line s guard).result = .error (.invalidAddress sum operand) ∧
          ((load r operand).execute p line s guard).result = .error (.invalidAddress sum operand) := by
  refine ⟨result_execute_store_iff p line s guard target rs, ?_, ?_, ?_⟩
  · intro flow t g hstore
    obtain ⟨a, w, haddress, hread, -, rfl, -⟩ := execute_store_eq_ok_iff.1 hstore
    obtain ⟨hsum, ha⟩ := (s.address_eq_ok_iff_sum? target a).1 haddress
    refine ⟨a.toInt, w, hsum, hread, rfl, fun b => ?_, fun q next h rd source hrd => ⟨?_, ?_⟩⟩
    · rw [State.stored, Memory.read_put ha]
      simp only [Int32.toInt_inj]
    · intro hsource
      exact execute_load_stored q next s h ((s.address_eq_ok_iff_sum? source a).2 ⟨hsource, ha⟩) w hrd
    · intro hsource
      have hne : s.address source ≠ .ok a := fun heq =>
        hsource ((s.address_eq_ok_iff_sum? source a).1 heq).1
      obtain ⟨hresult, hregisters⟩ := execute_load_of_ne q next s h ha hne w rd
      exact ⟨hresult, by rw [hregisters]⟩
  · intro t x y a hx hy
    have hsum := ((s.address_eq_ok_iff_sum? x a).1 hx).1
    exact ⟨a.toInt, hsum, (State.sum?_eq_of_address_eq hx hy).symm.trans hsum⟩
  · intro operand sum hsum hout r
    have hstarts : ¬ Address.Starts sum := by
      rintro ⟨hlow, hhigh, -⟩
      omega
    have haddress := State.address_of_not_starts hsum hstarts
    simp only [execute_store, execute_load, haddress, and_self]

end Instruction

/-- A state in which a register holds the lowest word of all. -/
def State.atLowest : State :=
  initial.writeRegister .link (-2147483648)

/-- The lowest word of all is stored at the lowest address of all, and another operand with the same sum
loads it from there. The cell above stays empty, and no cell starts at the multiple of four below. -/
theorem Instruction.store_load_exact_lowest :
    ((store ⟨0, .link⟩ .link).execute .empty 0 State.atLowest none).result = .ok .next ∧
      ∃ t : State, (store ⟨0, .link⟩ .link).execute .empty 0 State.atLowest none = ⟨.ok .next, t, none⟩ ∧
        State.atLowest.sum? ⟨-2147483648, .zero⟩ = State.atLowest.sum? ⟨0, .link⟩ ∧
        ((load ⟨1⟩ ⟨-2147483648, .zero⟩).execute .empty 1 t none).state.registers.read ⟨1⟩ =
          some (-2147483648) ∧
        State.atLowest.sum? ⟨4, .link⟩ ≠ State.atLowest.sum? ⟨0, .link⟩ ∧
        ((load ⟨1⟩ ⟨4, .link⟩).execute .empty 1 t none).result =
          .error (.noValue (.memory (-2147483644))) ∧
        ((store ⟨-4, .link⟩ .link).execute .empty 0 State.atLowest none).result =
          .error (.invalidAddress (-2147483652) ⟨-4, .link⟩) := by
  have hstore : (store ⟨0, .link⟩ .link).execute .empty 0 State.atLowest none =
      ⟨.ok .next, State.atLowest.stored (-2147483648) (-2147483648), none⟩ := rfl
  have hsame : State.atLowest.sum? ⟨-2147483648, .zero⟩ = some (-2147483648) := by decide
  have hother : State.atLowest.sum? ⟨4, .link⟩ ≠ some (-2147483648) := by decide
  have hsum : State.atLowest.sum? ⟨0, .link⟩ = some (-2147483648) := by decide
  have hbelow : State.atLowest.sum? ⟨-4, .link⟩ = some (-2147483652) := by decide
  obtain ⟨-, hload, -, hreport⟩ := store_load_exact .empty 0 State.atLowest none ⟨0, .link⟩ .link
  obtain ⟨sum, w, hsum', hw, -, -, hload⟩ := hload _ _ _ hstore
  obtain rfl := Option.some.inj (hsum.symm.trans hsum')
  obtain rfl : -2147483648 = w := Option.some.inj hw
  have hne : (⟨1⟩ : Register) ≠ .zero := by decide
  refine ⟨rfl, _, hstore, hsame.trans hsum.symm, ?_, hsum ▸ hother, ?_, ?_⟩
  · exact ((hload .empty 1 none ⟨1⟩ ⟨-2147483648, .zero⟩ hne).1 hsame).2
  · exact ((hload .empty 1 none ⟨1⟩ ⟨4, .link⟩ hne).2 hother).1
  · exact (hreport ⟨-4, .link⟩ _ hbelow (by decide) .link).1

end Dlx
