import Dlx.Assembly.Source
import Dlx.Proofs.Assembly.Operand
import Dlx.Proofs.Program

/-!
# What assembling gives

A source text is assembled exactly if each of its lines can be read on its own and no label is defined
by two of them. Then the program consists of these lines. Otherwise the first line at which something
is wrong decides, and within that line the cutting into fields comes before the label, and the label
before the instruction.

- **§1** reading one line: its fields, and what it defines
- **§2** what is wrong with a line, given the lines above it (`FlawAt`, `FirstFlaw`)
- **§3** programs that describe source lines (`Describes`), and what adding one line does to that
- **§4** all lines
-/

namespace Dlx.Assembly

/-! ## §1 One line -/

/-- A source line defines a label: it can be cut into fields, and the label is one of them. -/
def Defines (raw : List Char) (label : String) : Prop :=
  ∃ fields, Fields.ofLine raw = .ok fields ∧ fields.label = some label

theorem readLine_eq_ok_iff (raw : List Char) (l : Line) :
    readLine raw = .ok l ↔ ∃ fields, Fields.ofLine raw = .ok fields ∧ fields.toLine = .ok l := by
  rw [readLine]
  cases h : Fields.ofLine raw with
  | error e => simp [bind, Except.bind]
  | ok fields => simp [bind, Except.bind]

/-- Fields describe a line exactly if there is no opcode or its instruction can be read. -/
theorem Fields.toLine_eq_ok_iff (fields : Fields) (l : Line) :
    fields.toLine = .ok l ↔
      l.label = fields.label ∧ l.breakpoint = fields.breakpoint ∧
        match fields.opcode with
        | none => l.instruction = none
        | some mnemonic =>
          ∃ i, readInstruction mnemonic fields.arguments = .ok i ∧ l.instruction = some i := by
  obtain ⟨label, breakpoint, instruction⟩ := l
  rw [toLine]
  cases hopcode : fields.opcode with
  | none => simp [Line.mk.injEq, eq_comm]
  | some mnemonic =>
    cases hread : readInstruction mnemonic fields.arguments with
    | error e => simp [hread]
    | ok i => simp [hread, eq_comm]

theorem Fields.toLine_eq_error_iff (fields : Fields) (flaw : Flaw) :
    fields.toLine = .error flaw ↔
      ∃ mnemonic, fields.opcode = some mnemonic ∧
        readInstruction mnemonic fields.arguments = .error flaw := by
  rw [toLine]
  cases hopcode : fields.opcode with
  | none => simp
  | some mnemonic => cases hread : readInstruction mnemonic fields.arguments <;> simp [hread]

/-- The instruction of a line that can be read has been read from its opcode and its arguments. -/
theorem instruction_of_readLine {raw : List Char} {l : Line} (h : readLine raw = .ok l)
    {i : Instruction} (hi : l.instruction = some i) :
    ∃ fields mnemonic, Fields.ofLine raw = .ok fields ∧ fields.label = l.label ∧
      readInstruction mnemonic fields.arguments = .ok i := by
  obtain ⟨fields, hfields, hline⟩ := (readLine_eq_ok_iff raw l).1 h
  obtain ⟨hlabel, -, hinstruction⟩ := (fields.toLine_eq_ok_iff l).1 hline
  cases hopcode : fields.opcode with
  | none =>
    rw [hopcode, hi] at hinstruction
    exact absurd hinstruction (by simp)
  | some mnemonic =>
    rw [hopcode, hi] at hinstruction
    obtain ⟨j, hread, hsame⟩ := hinstruction
    obtain rfl := Option.some.inj hsame
    exact ⟨fields, mnemonic, hfields, hlabel.symm, hread⟩

/-- A line that can be read defines the label that it carries, and no other. -/
theorem defines_iff {raw : List Char} {l : Line} (h : readLine raw = .ok l) (label : String) :
    Defines raw label ↔ l.label = some label := by
  obtain ⟨fields, hfields, hline⟩ := (readLine_eq_ok_iff raw l).1 h
  rw [((fields.toLine_eq_ok_iff l).1 hline).1]
  constructor
  · rintro ⟨other, hother, hlabel⟩
    rw [hfields] at hother
    rwa [Except.ok.inj hother]
  · intro hlabel
    exact ⟨fields, hfields, hlabel⟩

/-! ## §2 What is wrong with a line -/

/-- The source line at an index defines a label. -/
def DefinedAt (raws : List (List Char)) (i : Nat) (label : String) : Prop :=
  ∃ raw, raws[i]? = some raw ∧ Defines raw label

/-- What is wrong with the source line at an index, given the lines above it. A taken label is reported
only for a line that can be cut into fields, and a bad instruction only if the label is free. -/
inductive FlawAt (raws : List (List Char)) (k : Nat) : Flaw → Prop where
  | fields {raw : List Char} {flaw : Flaw} :
      raws[k]? = some raw → Fields.ofLine raw = .error flaw → FlawAt raws k flaw
  | duplicate {label : String} {firstLine : Nat} :
      DefinedAt raws k label → firstLine < k → DefinedAt raws firstLine label →
      FlawAt raws k (.duplicateLabel label firstLine)
  | instruction {raw : List Char} {fields : Fields} {mnemonic : String} {flaw : Flaw} :
      raws[k]? = some raw → Fields.ofLine raw = .ok fields →
      (∀ label, fields.label = some label → ∀ j < k, ¬ DefinedAt raws j label) →
      fields.opcode = some mnemonic →
      readInstruction mnemonic fields.arguments = .error flaw → FlawAt raws k flaw

/-- The first line at which something is wrong, and what that is. -/
structure FirstFlaw (raws : List (List Char)) (k : Nat) (flaw : Flaw) : Prop where
  here : FlawAt raws k flaw
  above : ∀ j < k, ∀ other, ¬ FlawAt raws j other

theorem DefinedAt.lt_length {raws : List (List Char)} {i : Nat} {label : String}
    (h : DefinedAt raws i label) : i < raws.length := by
  obtain ⟨raw, hraw, -⟩ := h
  exact (List.getElem?_eq_some_iff.1 hraw).1

theorem FlawAt.lt_length {raws : List (List Char)} {k : Nat} {flaw : Flaw} (h : FlawAt raws k flaw) :
    k < raws.length := by
  cases h with
  | fields hraw | instruction hraw => exact (List.getElem?_eq_some_iff.1 hraw).1
  | duplicate hhere => exact hhere.lt_length

/-- Two texts that agree up to a line define the same labels there. -/
theorem definedAt_congr {raws others : List (List Char)} {i : Nat} (h : raws[i]? = others[i]?)
    (label : String) : DefinedAt raws i label ↔ DefinedAt others i label := by
  rw [DefinedAt, DefinedAt, h]

/-- One more source line adds the labels that it defines. -/
theorem definedAt_concat (raws : List (List Char)) (raw : List Char) (i : Nat) (label : String) :
    DefinedAt (raws ++ [raw]) i label ↔
      DefinedAt raws i label ∨ (i = raws.length ∧ Defines raw label) := by
  by_cases hi : i < raws.length
  · have hne : i ≠ raws.length := Nat.ne_of_lt hi
    simp [DefinedAt, List.getElem?_append_left hi, hne]
  · -- No old line stands here, so it is the new line or none.
    have hold : ¬ DefinedAt raws i label := fun hdefined => hi hdefined.lt_length
    by_cases heq : i = raws.length
    · subst heq
      simp [DefinedAt]
    · have hnew : ¬ DefinedAt (raws ++ [raw]) i label := by
        intro hdefined
        have hlt := hdefined.lt_length
        rw [List.length_append, List.length_singleton] at hlt
        omega
      simp [hold, hnew, heq]

/-- Two texts that agree up to a line have the same flaws there. -/
theorem FlawAt.congr {raws others : List (List Char)} {k : Nat} {flaw : Flaw}
    (h : ∀ i ≤ k, raws[i]? = others[i]?) (hflaw : FlawAt raws k flaw) : FlawAt others k flaw := by
  cases hflaw with
  | fields hraw herror =>
    exact .fields (h k (Nat.le_refl k) ▸ hraw) herror
  | duplicate hhere hlt hfirst =>
    have hthere := (definedAt_congr (h k (Nat.le_refl k)) _).1 hhere
    have habove := (definedAt_congr (h _ (Nat.le_of_lt hlt)) _).1 hfirst
    exact .duplicate hthere hlt habove
  | instruction hraw hfields hfree hopcode herror =>
    -- The label is free in the other text as well, for the lines above are the same.
    refine .instruction (h k (Nat.le_refl k) ▸ hraw) hfields ?_ hopcode herror
    intro label hlabel j hj hdefined
    apply hfree label hlabel j hj
    exact (definedAt_congr (h j (Nat.le_of_lt hj)) label).2 hdefined

/-- The first flaw of a text is that of every text that agrees with it up to there. -/
theorem FirstFlaw.congr {raws others : List (List Char)} {k : Nat} {flaw : Flaw}
    (h : ∀ i ≤ k, raws[i]? = others[i]?) (hfirst : FirstFlaw raws k flaw) : FirstFlaw others k flaw where
  here := hfirst.here.congr h
  above j hj other hother := by
    apply hfirst.above j hj other
    apply hother.congr
    intro i hi
    exact (h i (Nat.le_trans hi (Nat.le_of_lt hj))).symm

/-- Above the first flaw no label is defined twice. -/
theorem FirstFlaw.definedAt_injective {raws : List (List Char)} {k : Nat} {flaw : Flaw}
    (h : FirstFlaw raws k flaw) {i j : Nat} {label : String} (hi : i < k) (hj : j < k)
    (hilabel : DefinedAt raws i label) (hjlabel : DefinedAt raws j label) : i = j := by
  -- Otherwise the later one of the two lines would have a flaw already.
  rcases Nat.lt_trichotomy i j with hij | hij | hij
  · exact absurd (.duplicate hjlabel hij hilabel) (h.above j hj _)
  · exact hij
  · exact absurd (.duplicate hilabel hij hjlabel) (h.above i hi _)

/-- At most one thing is wrong with the line of the first flaw. -/
theorem FirstFlaw.flaw_unique {raws : List (List Char)} {k : Nat} {flaw other : Flaw}
    (h : FirstFlaw raws k flaw) (hother : FlawAt raws k other) : flaw = other := by
  -- The causes exclude each other: the line can be cut into fields or not, and its label is free or not.
  cases h.here with
  | fields hraw herror =>
    cases hother with
    | fields hraw' herror' => simp_all
    | duplicate hhere' => obtain ⟨raw, hraw', fields, hfields, -⟩ := hhere'; simp_all
    | instruction hraw' hfields' => simp_all
  | duplicate hhere hlt hfirst =>
    obtain ⟨raw, hraw, fields, hfields, hlabel⟩ := hhere
    cases hother with
    | fields hraw' herror' => simp_all
    | duplicate hhere' hlt' hfirst' =>
      obtain ⟨raw', hraw', fields', hfields', hlabel'⟩ := hhere'
      obtain rfl : raw = raw' := Option.some.inj (hraw.symm.trans hraw')
      obtain rfl : fields = fields' := Except.ok.inj (hfields.symm.trans hfields')
      obtain rfl := Option.some.inj (hlabel.symm.trans hlabel')
      -- Both report the same label, and only one line above defines it.
      rw [h.definedAt_injective hlt hlt' hfirst hfirst']
    | instruction hraw' hfields' hfree' =>
      obtain rfl : raw = _ := Option.some.inj (hraw.symm.trans hraw')
      obtain rfl : fields = _ := Except.ok.inj (hfields.symm.trans hfields')
      exact absurd hfirst (hfree' _ hlabel _ hlt)
  | instruction hraw hfields hfree hopcode herror =>
    cases hother with
    | fields hraw' herror' => simp_all
    | duplicate hhere' hlt' hfirst' =>
      obtain ⟨raw', hraw', fields', hfields', hlabel'⟩ := hhere'
      obtain rfl : _ = raw' := Option.some.inj (hraw.symm.trans hraw')
      obtain rfl : _ = fields' := Except.ok.inj (hfields.symm.trans hfields')
      exact absurd hfirst' (hfree _ hlabel' _ hlt')
    | instruction hraw' hfields' hfree' hopcode' herror' => simp_all

/-- There is only one first flaw. -/
theorem FirstFlaw.unique {raws : List (List Char)} {k j : Nat} {flaw other : Flaw}
    (h : FirstFlaw raws k flaw) (hother : FirstFlaw raws j other) : k = j ∧ flaw = other := by
  rcases Nat.lt_trichotomy k j with hkj | rfl | hkj
  · exact absurd h.here (hother.above k hkj flaw)
  · exact ⟨rfl, h.flaw_unique hother.here⟩
  · exact absurd hother.here (h.above j hkj other)

/-! ## §3 Programs that describe source lines -/

/-- A program has one line for each source line, and its labels are those that the source lines
define. -/
structure Describes (p : Program) (raws : List (List Char)) : Prop where
  size : p.size = raws.length
  line : ∀ i raw, raws[i]? = some raw → ∃ l, readLine raw = .ok l ∧ p.line? i = some l
  resolve : ∀ label i, p.resolve? label = some i ↔ DefinedAt raws i label

theorem describes_empty : Describes .empty [] where
  size := rfl
  line i raw h := by simp at h
  resolve label i := by simp [Program.empty, Program.resolve?, DefinedAt]

/-- A program that describes source lines describes one more after the line that this one describes
has been added, if the label is free. -/
theorem Describes.append {p : Program} {raws : List (List Char)} (h : Describes p raws)
    {raw : List Char} {l : Line} (hread : readLine raw = .ok l)
    (hfree : ∀ label, l.label = some label → p.resolve? label = none) :
    Describes (p.append l) (raws ++ [raw]) where
  size := by simp [h.size]
  line i other hother := by
    rw [Program.line?_append, h.size]
    -- The new source line stands where the new line of the program stands.
    by_cases hi : i = raws.length
    · subst hi
      obtain rfl : raw = other := by simpa using hother
      exact ⟨l, hread, if_pos rfl⟩
    · have hlt : i < raws.length := by
        have := (List.getElem?_eq_some_iff.1 hother).1
        simp at this
        omega
      rw [List.getElem?_append_left hlt] at hother
      obtain ⟨k, hk, hline⟩ := h.line i other hother
      exact ⟨k, hk, by rw [if_neg hi, hline]⟩
  resolve label i := by
    rw [Program.resolve?_append, definedAt_concat, defines_iff hread, ← h.resolve, h.size]
    by_cases hown : l.label = some label
    · simp [hown, hfree label hown, eq_comm]
    · simp [hown]

/-- There is nothing wrong with a line that a program describes. -/
theorem Describes.not_flawAt {p : Program} {raws rest : List (List Char)} (h : Describes p raws)
    {j : Nat} (hj : j < raws.length) (flaw : Flaw) : ¬ FlawAt (raws ++ rest) j flaw := by
  have hagree : ∀ i ≤ j, (raws ++ rest)[i]? = raws[i]? :=
    fun i hi => List.getElem?_append_left (Nat.lt_of_le_of_lt hi hj)
  intro hflaw
  -- The lines below do not matter, and without them the program has a line for each line.
  have hflaw := hflaw.congr hagree
  obtain ⟨l, hread, -⟩ := h.line j raws[j] (List.getElem?_eq_getElem hj)
  obtain ⟨fields, hfields, hline⟩ := (readLine_eq_ok_iff _ l).1 hread
  cases hflaw with
  | fields hraw herror => simp_all
  | duplicate hhere hlt hfirst =>
    -- A label resolves to one line only.
    have hsame := ((h.resolve _ _).2 hhere).symm.trans ((h.resolve _ _).2 hfirst)
    exact Nat.ne_of_lt hlt (Option.some.inj hsame).symm
  | instruction hraw hfields' hfree hopcode herror =>
    have hfail := (Fields.toLine_eq_error_iff _ _).2 ⟨_, hopcode, herror⟩
    simp_all

theorem earlier?_eq_some_iff (p : Program) (fields : Fields) (label : String) (firstLine : Nat) :
    earlier? p fields = some (label, firstLine) ↔
      fields.label = some label ∧ p.resolve? label = some firstLine := by
  simp only [earlier?, Option.bind_eq_bind, Option.bind_eq_some_iff]
  constructor
  · rintro ⟨own, hown, line, hline, hpair⟩
    obtain ⟨rfl, rfl⟩ := Prod.mk.inj (Option.some.inj hpair)
    exact ⟨hown, hline⟩
  · rintro ⟨hown, hline⟩
    exact ⟨label, hown, firstLine, hline, rfl⟩

/-- No earlier line carries the label of the fields exactly if that label, if any, is free. -/
theorem earlier?_eq_none_iff (p : Program) (fields : Fields) :
    earlier? p fields = none ↔ ∀ label, fields.label = some label → p.resolve? label = none := by
  simp only [earlier?, Option.bind_eq_bind, Option.bind_eq_none_iff]
  constructor
  · intro h label hlabel
    rw [Option.eq_none_iff_forall_ne_some]
    intro line hline
    exact absurd (h label hlabel line hline) (by simp)
  · intro h label hlabel line hline
    rw [h label hlabel] at hline
    exact absurd hline (by simp)

theorem addSource_of_fields_error {p : Program} {raw : List Char} {flaw : Flaw}
    (h : Fields.ofLine raw = .error flaw) : addSource p raw = .error flaw := by
  simp [addSource, h]

theorem addSource_of_taken {p : Program} {raw : List Char} {fields : Fields} {label : String}
    {firstLine : Nat} (hfields : Fields.ofLine raw = .ok fields) (hlabel : fields.label = some label)
    (hresolve : p.resolve? label = some firstLine) :
    addSource p raw = .error (.duplicateLabel label firstLine) := by
  have hearlier := (earlier?_eq_some_iff p fields label firstLine).2 ⟨hlabel, hresolve⟩
  simp [addSource, hfields, hearlier]

/-- If its label is free, then a source line is added as soon as its fields describe a line. -/
theorem addSource_of_free {p : Program} {raw : List Char} {fields : Fields}
    (hfields : Fields.ofLine raw = .ok fields)
    (hfree : ∀ label, fields.label = some label → p.resolve? label = none) :
    addSource p raw = fields.toLine.map p.append := by
  have hearlier := (earlier?_eq_none_iff p fields).2 hfree
  cases hline : fields.toLine <;> simp [addSource, hfields, hearlier, hline, Except.map]

/-- A source line that can be read is refused only for its label. -/
theorem addSource_of_readLine {p : Program} {raw : List Char} {l : Line} (h : readLine raw = .ok l) :
    addSource p raw =
      match l.label.bind fun label => (p.resolve? label).map (label, ·) with
      | some (label, firstLine) => .error (.duplicateLabel label firstLine)
      | none => .ok (p.append l) := by
  obtain ⟨fields, hfields, hline⟩ := (readLine_eq_ok_iff raw l).1 h
  have hlabel := ((fields.toLine_eq_ok_iff l).1 hline).1
  cases hown : l.label with
  | none =>
    rw [addSource_of_free hfields (by simp [← hlabel, hown]), hline]
    rfl
  | some label =>
    cases hresolve : p.resolve? label with
    | none =>
      rw [addSource_of_free hfields (by simp [← hlabel, hown, hresolve]), hline]
      simp [Except.map, hresolve]
    | some firstLine =>
      rw [addSource_of_taken hfields (hlabel ▸ hown) hresolve]
      simp [hresolve]

/-- What is added by a source line is the line that it describes, and its label was free. -/
theorem readLine_of_addSource {p q : Program} {raw : List Char} (h : addSource p raw = .ok q) :
    ∃ l, readLine raw = .ok l ∧ (∀ label, l.label = some label → p.resolve? label = none) ∧
      q = p.append l := by
  cases hfields : Fields.ofLine raw with
  | error e =>
    rw [addSource_of_fields_error hfields] at h
    exact absurd h (by simp)
  | ok fields =>
    cases hearlier : earlier? p fields with
    | some entry =>
      obtain ⟨hlabel, hresolve⟩ := (earlier?_eq_some_iff p fields entry.1 entry.2).1 hearlier
      rw [addSource_of_taken hfields hlabel hresolve] at h
      exact absurd h (by simp)
    | none =>
      have hfree := (earlier?_eq_none_iff p fields).1 hearlier
      rw [addSource_of_free hfields hfree] at h
      cases hline : fields.toLine with
      | error e =>
        rw [hline] at h
        exact absurd h (by simp [Except.map])
      | ok l =>
        rw [hline] at h
        have hlabel := ((fields.toLine_eq_ok_iff l).1 hline).1
        exact ⟨l, (readLine_eq_ok_iff raw l).2 ⟨fields, hfields, hline⟩, hlabel ▸ hfree,
          (Except.ok.inj h).symm⟩

/-- If a source line is refused by a program that describes the lines above, then that is what is wrong
with it. -/
theorem Describes.flawAt {p : Program} {raws : List (List Char)} (h : Describes p raws)
    {raw : List Char} {flaw : Flaw} (herror : addSource p raw = .error flaw)
    (rest : List (List Char)) : FlawAt (raws ++ raw :: rest) raws.length flaw := by
  have hraw : (raws ++ raw :: rest)[raws.length]? = some raw := by simp
  have habove : ∀ j < raws.length, ∀ label,
      DefinedAt (raws ++ raw :: rest) j label ↔ p.resolve? label = some j := by
    intro j hj label
    rw [h.resolve]
    exact definedAt_congr (List.getElem?_append_left hj) label
  -- Which cause it is depends on how far the line has come.
  cases hfields : Fields.ofLine raw with
  | error e =>
    rw [addSource_of_fields_error hfields] at herror
    obtain rfl := Except.error.inj herror
    exact .fields hraw hfields
  | ok fields =>
    cases hearlier : earlier? p fields with
    | some entry =>
      obtain ⟨hlabel, hresolve⟩ := (earlier?_eq_some_iff p fields entry.1 entry.2).1 hearlier
      rw [addSource_of_taken hfields hlabel hresolve] at herror
      have hlt : entry.2 < raws.length := ((h.resolve _ _).1 hresolve).lt_length
      obtain rfl := Except.error.inj herror
      exact .duplicate ⟨raw, hraw, fields, hfields, hlabel⟩ hlt ((habove _ hlt _).2 hresolve)
    | none =>
      have hfree := (earlier?_eq_none_iff p fields).1 hearlier
      rw [addSource_of_free hfields hfree] at herror
      cases hline : fields.toLine with
      | ok l =>
        rw [hline] at herror
        exact absurd herror (by simp [Except.map])
      | error e =>
        rw [hline] at herror
        obtain rfl := Except.error.inj herror
        obtain ⟨mnemonic, hopcode, hread⟩ := (fields.toLine_eq_error_iff e).1 hline
        refine .instruction hraw hfields (fun label hlabel j hj hdefined => ?_) hopcode hread
        -- A line above that defines the label would have made it resolve.
        have hresolve := (habove j hj label).1 hdefined
        rw [hfree label hlabel] at hresolve
        exact absurd hresolve (by simp)

/-! ## §4 All lines -/

/-- What holds of a program and is kept when a line that has been read is added under a free label holds
of the program with all lines. -/
theorem addSources_induction {motive : Program → Prop}
    (append : ∀ p raw l, motive p → readLine raw = .ok l →
      (∀ label, l.label = some label → p.resolve? label = none) → motive (p.append l))
    {p q : Program} (hp : motive p) {raws : List (List Char)} (h : addSources p raws = .ok q) :
    motive q := by
  induction raws generalizing p with
  | nil =>
    obtain rfl : p = q := Except.ok.inj h
    exact hp
  | cons raw raws ih =>
    rw [addSources] at h
    cases hadd : addSource p raw with
    | error flaw =>
      rw [hadd] at h
      exact absurd h (by simp)
    | ok p' =>
      rw [hadd] at h
      obtain ⟨l, hread, hfree, rfl⟩ := readLine_of_addSource hadd
      exact ih (append p raw l hp hread hfree) h

/-- An assembled program has been built by pushing line after line. -/
theorem built_of_assemble {source : String} {p : Program} (h : assemble source = .ok p) : p.Built := by
  refine addSources_induction ?_ Program.Built.empty h
  intro p raw l hp _ hfree
  exact hp.push ((Program.push_eq_ok_iff p _ l).2 ⟨hfree, rfl⟩)

/-- The instructions of an assembled program are accepted. -/
theorem checked_of_assemble {source : String} {p : Program} (h : assemble source = .ok p) :
    p.Checked := by
  refine addSources_induction ?_ Program.checked_empty h
  intro p raw l hp hread _
  apply hp.append
  intro i hi
  obtain ⟨fields, mnemonic, -, -, hinstruction⟩ := instruction_of_readLine hread hi
  exact ((readInstruction_eq_ok_iff ..).1 hinstruction).2.1

/-- **Adding source lines** to a program that describes the lines above gives a program that describes
all of them, or else the first flaw. -/
theorem Describes.addSources {p : Program} {raws : List (List Char)} (h : Describes p raws)
    (rest : List (List Char)) :
    match addSources p rest with
    | .ok q => Describes q (raws ++ rest)
    | .error e => FirstFlaw (raws ++ rest) e.line e.flaw := by
  -- The program grows with the lines above, so both are general in the induction.
  induction rest generalizing p raws with
  | nil => simpa [Assembly.addSources] using h
  | cons raw rest ih =>
    rw [Assembly.addSources]
    cases hadd : addSource p raw with
    | error flaw =>
      show FirstFlaw (raws ++ raw :: rest) p.size flaw
      rw [h.size]
      exact ⟨h.flawAt hadd rest, fun j hj other => h.not_flawAt hj other⟩
    | ok q =>
      obtain ⟨l, hread, hfree, rfl⟩ := readLine_of_addSource hadd
      simpa using ih (h.append hread hfree)

/-- An assembled program describes the lines of its source text. -/
theorem describes_of_assemble {source : String} {p : Program} (h : assemble source = .ok p) :
    Describes p (Text.lines source.toList) := by
  have hall := describes_empty.addSources (Text.lines source.toList)
  rw [← assemble, h] at hall
  exact hall

/-- A text that is refused is refused for its first flaw. -/
theorem firstFlaw_of_assemble {source : String} {e : Error} (h : assemble source = .error e) :
    FirstFlaw (Text.lines source.toList) e.line e.flaw := by
  have hall := describes_empty.addSources (Text.lines source.toList)
  rw [← assemble, h] at hall
  exact hall

/-- A text is refused exactly for its first flaw. -/
theorem assemble_eq_error_iff (source : String) (e : Error) :
    assemble source = .error e ↔ FirstFlaw (Text.lines source.toList) e.line e.flaw := by
  constructor
  · exact firstFlaw_of_assemble
  · intro hfirst
    cases h : assemble source with
    | ok p =>
      -- A program that describes the text would rule out the flaw.
      have hflaw := hfirst.here
      have hlt := hflaw.lt_length
      rw [← List.append_nil (Text.lines source.toList)] at hflaw
      exact absurd hflaw ((describes_of_assemble h).not_flawAt hlt e.flaw)
    | error other =>
      obtain ⟨hline, hflaw⟩ := (firstFlaw_of_assemble h).unique hfirst
      cases e
      cases other
      simp_all

/-- If every line can be read and no label is defined twice, then there is nothing wrong. -/
theorem not_flawAt_of_readLine {raws : List (List Char)}
    (hread : ∀ raw ∈ raws, ∃ l, readLine raw = .ok l)
    (hlabels : ∀ label i j, DefinedAt raws i label → DefinedAt raws j label → i = j)
    (k : Nat) (flaw : Flaw) : ¬ FlawAt raws k flaw := by
  have hfine : ∀ raw, raws[k]? = some raw →
      ∃ fields l, Fields.ofLine raw = .ok fields ∧ fields.toLine = .ok l := by
    intro raw hraw
    obtain ⟨l, hl⟩ := hread raw (List.mem_of_getElem? hraw)
    obtain ⟨fields, hfields, hline⟩ := (readLine_eq_ok_iff raw l).1 hl
    exact ⟨fields, l, hfields, hline⟩
  intro hflaw
  cases hflaw with
  | fields hraw herror =>
    obtain ⟨fields, l, hfields, -⟩ := hfine _ hraw
    exact absurd (hfields.symm.trans herror) (by simp)
  | duplicate hhere hlt hfirst => exact absurd (hlabels _ _ _ hfirst hhere) (Nat.ne_of_lt hlt)
  | instruction hraw hfields hfree hopcode herror =>
    obtain ⟨fields, l, hfields', hline⟩ := hfine _ hraw
    obtain rfl := Except.ok.inj (hfields.symm.trans hfields')
    have hfail := (Fields.toLine_eq_error_iff _ _).2 ⟨_, hopcode, herror⟩
    exact absurd (hline.symm.trans hfail) (by simp)

/-- **What assembling gives.** A text is assembled exactly if each line can be read on its own and no
label is defined by two lines, and then the program consists of these lines. It is refused exactly for
the first flaw of its lines; above that line no label is defined twice, and the lines below it have no
influence. -/
theorem assemble_exact (source : String) :
    ((∃ p, assemble source = .ok p) ↔
      (∀ raw ∈ Text.lines source.toList, ∃ l, readLine raw = .ok l) ∧
        ∀ label i j, DefinedAt (Text.lines source.toList) i label →
          DefinedAt (Text.lines source.toList) j label → i = j) ∧
    (∀ p, assemble source = .ok p → Describes p (Text.lines source.toList)) ∧
    (∀ e, assemble source = .error e ↔ FirstFlaw (Text.lines source.toList) e.line e.flaw) ∧
    ∀ e, assemble source = .error e →
      (∀ label i j, i < e.line → j < e.line → DefinedAt (Text.lines source.toList) i label →
        DefinedAt (Text.lines source.toList) j label → i = j) ∧
      ∀ other : String,
        (∀ i ≤ e.line, (Text.lines source.toList)[i]? = (Text.lines other.toList)[i]?) →
        assemble other = .error e := by
  refine ⟨⟨?_, ?_⟩, fun p hp => describes_of_assemble hp, assemble_eq_error_iff source, ?_⟩
  · rintro ⟨p, hp⟩
    have hdescribes := describes_of_assemble hp
    constructor
    · intro raw hraw
      obtain ⟨i, hi⟩ := List.mem_iff_getElem?.1 hraw
      obtain ⟨l, hl, -⟩ := hdescribes.line i raw hi
      exact ⟨l, hl⟩
    · intro label i j hi hj
      -- Both lines are where the label resolves to.
      have hsame := ((hdescribes.resolve label i).2 hi).symm.trans ((hdescribes.resolve label j).2 hj)
      exact Option.some.inj hsame
  · rintro ⟨hread, hlabels⟩
    cases h : assemble source with
    | ok p => exact ⟨p, rfl⟩
    | error e =>
      exact absurd (firstFlaw_of_assemble h).here (not_flawAt_of_readLine hread hlabels e.line e.flaw)
  · intro e he
    have hfirst := firstFlaw_of_assemble he
    constructor
    · intro label i j hi hj hilabel hjlabel
      exact hfirst.definedAt_injective hi hj hilabel hjlabel
    · intro other hagree
      exact (assemble_eq_error_iff other e).2 (hfirst.congr hagree)

end Dlx.Assembly
