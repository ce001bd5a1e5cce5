import Dlx.Program

/-!
# The index of a program

The table of a program and its index of labels are never set apart from each other: a program is
*built* by adding lines, by collecting a list of lines, and by setting breakpoints. So in every built
program a label resolves to a line exactly if that line carries it.

- **§1** the index agrees with the table (`Program.Indexed`)
- **§2** adding a line and setting a breakpoint keep that
- **§3** programs whose instructions are accepted (`Program.Checked`)
- **§4** built programs (`Program.Built`), and that they are indexed
- **§5** a built program is determined by its lines
-/

namespace Dlx.Program

/-! ## §1 The index agrees with the table -/

/-- A label resolves to a line exactly if that line carries it. -/
def Indexed (p : Program) : Prop :=
  ∀ (label : String) (i : Nat),
    p.resolve? label = some i ↔ ∃ l, p.line? i = some l ∧ l.label = some label

/-- There is a line exactly at the indices below the size. -/
theorem lt_size_iff (p : Program) (i : Nat) : i < p.size ↔ ∃ l, p.line? i = some l := by
  rw [line?, size]
  constructor
  · intro hi
    exact ⟨p.lines[i], Array.getElem?_eq_getElem hi⟩
  · rintro ⟨l, hl⟩
    exact (Array.getElem?_eq_some_iff.1 hl).1

theorem lt_size_of_line? {p : Program} {i : Nat} {l : Line} (h : p.line? i = some l) : i < p.size :=
  (p.lt_size_iff i).2 ⟨l, h⟩

theorem mem_of_line? {p : Program} {i : Nat} {l : Line} (h : p.line? i = some l) :
    l ∈ p.lines.toList :=
  Array.mem_toList_iff.2 (Array.mem_of_getElem? h)

/-- In an indexed program every label resolves to a line of the program. -/
theorem Indexed.lt_size {p : Program} (h : p.Indexed) {label : String} {i : Nat}
    (hresolve : p.resolve? label = some i) : i < p.size := by
  obtain ⟨l, hl, -⟩ := (h label i).1 hresolve
  exact lt_size_of_line? hl

/-- No two lines of an indexed program carry the same label. -/
theorem Indexed.label_injective {p : Program} (h : p.Indexed) {label : String} {i j : Nat} {l k : Line}
    (hl : p.line? i = some l) (hk : p.line? j = some k)
    (hlabel : l.label = some label) (klabel : k.label = some label) : i = j := by
  have hi : p.resolve? label = some i := (h label i).2 ⟨l, hl, hlabel⟩
  have hj : p.resolve? label = some j := (h label j).2 ⟨k, hk, klabel⟩
  rw [hi] at hj
  exact Option.some.inj hj

/-! ## §2 Operations -/

theorem indexed_empty : empty.Indexed := by
  intro label i
  simp [empty, resolve?, line?]

/-- Adding a line keeps the index in step if no line carries the new line's label. -/
theorem Indexed.append {p : Program} (h : p.Indexed) (l : Line)
    (hfree : ∀ label, l.label = some label → p.resolve? label = none) : (p.append l).Indexed := by
  intro label i
  rw [resolve?_append, line?_append]
  -- Only the label of the new line can resolve otherwise than before.
  by_cases hown : l.label = some label
  · rw [if_pos hown]
    constructor
    · intro hi
      obtain rfl : p.size = i := Option.some.inj hi
      exact ⟨l, if_pos rfl, hown⟩
    · rintro ⟨k, hk, hlabel⟩
      by_cases hi : i = p.size
      · rw [hi]
      · rw [if_neg hi] at hk
        -- Then an earlier line would carry the label, which is free.
        have hresolve := (h label i).2 ⟨k, hk, hlabel⟩
        rw [hfree label hown] at hresolve
        exact absurd hresolve (by simp)
  · rw [if_neg hown, h label i]
    constructor
    · rintro ⟨k, hk, hlabel⟩
      -- A line that was there before is not the new one.
      have hi : i ≠ p.size := Nat.ne_of_lt (lt_size_of_line? hk)
      exact ⟨k, by rw [if_neg hi, hk], hlabel⟩
    · rintro ⟨k, hk, hlabel⟩
      by_cases hi : i = p.size
      · rw [if_pos hi] at hk
        obtain rfl := Option.some.inj hk
        exact absurd hlabel hown
      · rw [if_neg hi] at hk
        exact ⟨k, hk, hlabel⟩

/-- A line is pushed exactly if its label is free. -/
theorem push_eq_ok_iff (p q : Program) (l : Line) :
    p.push l = .ok q ↔
      (∀ label, l.label = some label → p.resolve? label = none) ∧ q = p.append l := by
  rw [push]
  cases hlabel : l.label with
  | none => simp [eq_comm]
  | some label => cases hresolve : p.resolve? label <;> simp [hresolve, eq_comm]

/-- A line is added with its label if that is free, and with none otherwise. -/
theorem filter_isNone_resolve?_iff (p : Program) (l : Line) (label : String) :
    l.label.filter (fun label => (p.resolve? label).isNone) = some label ↔
      l.label = some label ∧ p.resolve? label = none := by
  rw [Option.filter_eq_some_iff, Option.isNone_iff_eq_none]

/-- A breakpoint is set or cleared in one line, and nothing else changes. -/
theorem line?_of_setBreakpoint? {p q : Program} {i : Nat} {on : Bool}
    (h : p.setBreakpoint? i on = some q) (j : Nat) :
    q.line? j = (p.line? j).map fun l => if j = i then { l with breakpoint := on } else l := by
  obtain ⟨l, hl, rfl⟩ := Option.map_eq_some_iff.1 h
  have hi : i < p.lines.size := lt_size_of_line? hl
  rw [line?] at hl
  simp only [line?, Array.getElem?_setIfInBounds]
  by_cases hj : j = i
  · subst hj
    rw [if_pos rfl, if_pos hi, hl, Option.map_some, if_pos rfl]
  · simp [hj, Ne.symm hj]

theorem resolve?_of_setBreakpoint? {p q : Program} {i : Nat} {on : Bool}
    (h : p.setBreakpoint? i on = some q) (label : String) : q.resolve? label = p.resolve? label := by
  obtain ⟨l, -, rfl⟩ := Option.map_eq_some_iff.1 h
  rfl

/-- A breakpoint is turned over by setting it to its other value. -/
theorem setBreakpoint?_of_toggleBreakpoint? {p q : Program} {i : Nat} {on : Bool}
    (h : p.toggleBreakpoint? i = some (on, q)) : p.setBreakpoint? i on = some q := by
  simp only [toggleBreakpoint?, Option.bind_eq_bind, Option.bind_eq_some_iff] at h
  obtain ⟨l, -, p', hp', hresult⟩ := h
  obtain ⟨rfl, rfl⟩ := Prod.mk.inj (Option.some.inj hresult)
  exact hp'

theorem Indexed.setBreakpoint {p q : Program} (h : p.Indexed) {i : Nat} {on : Bool}
    (hset : p.setBreakpoint? i on = some q) : q.Indexed := by
  intro label j
  -- Neither the index of labels nor the label of any line has changed.
  rw [resolve?_of_setBreakpoint? hset, h label j, line?_of_setBreakpoint? hset]
  constructor
  · rintro ⟨l, hl, hlabel⟩
    refine ⟨_, by rw [hl, Option.map_some], ?_⟩
    split <;> exact hlabel
  · rintro ⟨k, hk, hlabel⟩
    obtain ⟨l, hl, rfl⟩ := Option.map_eq_some_iff.1 hk
    refine ⟨l, hl, ?_⟩
    split at hlabel <;> exact hlabel

/-! ## §3 Accepted instructions -/

/-- Every instruction is one that a mnemonic can write. -/
def Checked (p : Program) : Prop :=
  ∀ (line : Nat) (i : Instruction), p.instruction? line = some i → i.check = .ok ()

theorem instruction?_eq_some_iff (p : Program) (line : Nat) (i : Instruction) :
    p.instruction? line = some i ↔ ∃ l, p.line? line = some l ∧ l.instruction = some i :=
  Option.bind_eq_some_iff

/-- What the search for a flaw finds in one line. -/
def flawIn? (entry : Line × Nat) : Option (Nat × NoImmediateForm) :=
  match entry.1.instruction.map Instruction.check with
  | some (.error e) => some (entry.2, e)
  | _ => none

theorem firstFlaw?_eq (p : Program) : p.firstFlaw? = p.lines.toList.zipIdx.findSome? flawIn? := rfl

theorem flawIn?_eq_none_iff (l : Line) (k : Nat) :
    flawIn? (l, k) = none ↔ ∀ i, l.instruction = some i → i.check = .ok () := by
  cases hinstruction : l.instruction with
  | none => simp [flawIn?, hinstruction]
  | some i => cases hcheck : i.check <;> simp [flawIn?, hinstruction, hcheck]

theorem flawIn?_eq_some_iff (l : Line) (k line : Nat) (flaw : NoImmediateForm) :
    flawIn? (l, k) = some (line, flaw) ↔
      k = line ∧ ∃ i, l.instruction = some i ∧ i.check = .error flaw := by
  cases hinstruction : l.instruction with
  | none => simp [flawIn?, hinstruction]
  | some i => cases hcheck : i.check <;> simp [flawIn?, hinstruction, hcheck]

/-- The lines are searched in their order. -/
theorem getElem?_zipIdx_lines_iff (p : Program) (k n : Nat) (l : Line) :
    p.lines.toList.zipIdx[k]? = some (l, n) ↔ p.line? k = some l ∧ k = n := by
  rw [List.getElem?_zipIdx, Array.getElem?_toList, Nat.zero_add]
  show (p.line? k).map (fun l => (l, k)) = some (l, n) ↔ _
  constructor
  · intro h
    obtain ⟨l', hl, hpair⟩ := Option.map_eq_some_iff.1 h
    obtain ⟨rfl, rfl⟩ := Prod.mk.inj hpair
    exact ⟨hl, rfl⟩
  · rintro ⟨hl, rfl⟩
    rw [hl, Option.map_some]

/-- No flaw is found exactly if all instructions are accepted. -/
theorem firstFlaw?_eq_none_iff (p : Program) : p.firstFlaw? = none ↔ p.Checked := by
  rw [firstFlaw?_eq, List.findSome?_eq_none_iff]
  constructor
  · intro h line i hi
    obtain ⟨l, hl, hinstruction⟩ := (p.instruction?_eq_some_iff line i).1 hi
    -- The search has come to this line, and has not stopped there.
    have hentry := (p.getElem?_zipIdx_lines_iff line line l).2 ⟨hl, rfl⟩
    have hnone := h (l, line) (List.mem_of_getElem? hentry)
    exact (flawIn?_eq_none_iff l line).1 hnone i hinstruction
  · rintro h ⟨l, line⟩ hmem
    obtain ⟨k, hentry⟩ := List.mem_iff_getElem?.1 hmem
    obtain ⟨hl, rfl⟩ := (p.getElem?_zipIdx_lines_iff k line l).1 hentry
    refine (flawIn?_eq_none_iff l k).2 fun i hinstruction => ?_
    exact h k i ((p.instruction?_eq_some_iff k i).2 ⟨l, hl, hinstruction⟩)

/-- **The flaw that is found is the first one**: that of an instruction, and all instructions before it
are accepted. -/
theorem flaw_of_firstFlaw? {p : Program} {line : Nat} {flaw : NoImmediateForm}
    (h : p.firstFlaw? = some (line, flaw)) :
    (∃ i, p.instruction? line = some i ∧ i.check = .error flaw) ∧
      ∀ k < line, ∀ j, p.instruction? k = some j → j.check = .ok () := by
  rw [firstFlaw?_eq] at h
  -- The search has passed the lines before, and has stopped at this one.
  obtain ⟨before, ⟨l, n⟩, after, hsplit, hfound, hbefore⟩ := List.findSome?_eq_some_iff.1 h
  obtain ⟨rfl, i, hinstruction, hcheck⟩ := (flawIn?_eq_some_iff l n line flaw).1 hfound
  have hentry : p.lines.toList.zipIdx[before.length]? = some (l, n) := by
    rw [hsplit]
    simp
  obtain ⟨hl, rfl⟩ := (p.getElem?_zipIdx_lines_iff before.length n l).1 hentry
  constructor
  · exact ⟨i, (p.instruction?_eq_some_iff _ i).2 ⟨l, hl, hinstruction⟩, hcheck⟩
  · intro k hk j hj
    obtain ⟨l', hl', hj'⟩ := (p.instruction?_eq_some_iff k j).1 hj
    have hpassed := (p.getElem?_zipIdx_lines_iff k k l').2 ⟨hl', rfl⟩
    rw [hsplit, List.getElem?_append_left hk] at hpassed
    have hnone := hbefore (l', k) (List.mem_of_getElem? hpassed)
    exact (flawIn?_eq_none_iff l' k).1 hnone j hj'

theorem checked_empty : empty.Checked := by
  intro line i h
  simp [empty, instruction?, line?] at h

/-- Adding a line whose instruction is accepted keeps all of them accepted. -/
theorem Checked.append {p : Program} (h : p.Checked) {l : Line}
    (hl : ∀ i, l.instruction = some i → i.check = .ok ()) : (p.append l).Checked := by
  intro line i hi
  obtain ⟨k, hk, hinstruction⟩ := ((p.append l).instruction?_eq_some_iff line i).1 hi
  rw [line?_append] at hk
  by_cases hline : line = p.size
  · rw [if_pos hline] at hk
    obtain rfl := Option.some.inj hk
    exact hl i hinstruction
  · rw [if_neg hline] at hk
    exact h line i ((p.instruction?_eq_some_iff line i).2 ⟨k, hk, hinstruction⟩)

/-- A breakpoint is no part of an instruction. -/
theorem instruction?_of_setBreakpoint? {p q : Program} {i : Nat} {on : Bool}
    (h : p.setBreakpoint? i on = some q) (line : Nat) : q.instruction? line = p.instruction? line := by
  rw [instruction?, instruction?, line?_of_setBreakpoint? h]
  cases p.line? line with
  | none => rfl
  | some l =>
    rw [Option.map_some, Option.bind_some, Option.bind_some]
    split <;> rfl

theorem Checked.setBreakpoint {p q : Program} (h : p.Checked) {i : Nat} {on : Bool}
    (hset : p.setBreakpoint? i on = some q) : q.Checked := by
  intro line instruction hinstruction
  rw [instruction?_of_setBreakpoint? hset] at hinstruction
  exact h line instruction hinstruction

/-- A breakpoint adds no line. -/
theorem size_of_setBreakpoint? {p q : Program} {i : Nat} {on : Bool}
    (h : p.setBreakpoint? i on = some q) : q.size = p.size := by
  obtain ⟨l, -, rfl⟩ := Option.map_eq_some_iff.1 h
  simp [size]

/-! ## §4 Built programs -/

/-- The programs that the operations on programs give. -/
inductive Built : Program → Prop where
  | empty : Built .empty
  | push {p q : Program} {l : Line} : Built p → p.push l = .ok q → Built q
  | ofLines (ls : List Line) : Built (ofLines ls)
  | setBreakpoint {p q : Program} {i : Nat} {on : Bool} :
      Built p → p.setBreakpoint? i on = some q → Built q
  | toggleBreakpoint {p q : Program} {i : Nat} {on : Bool} :
      Built p → p.toggleBreakpoint? i = some (on, q) → Built q

/-- **What the operations keep holds of every built program.** A line that is added comes with a label that
is free, and turning a breakpoint over is setting it. -/
theorem Built.of_kept {motive : Program → Prop} (empty : motive .empty)
    (append : ∀ p l, motive p → (∀ label, l.label = some label → p.resolve? label = none) →
      motive (p.append l))
    (setBreakpoint : ∀ p q i on, motive p → p.setBreakpoint? i on = some q → motive q)
    {p : Program} (h : p.Built) : motive p := by
  have add : ∀ p l, motive p → motive (p.add l) := by
    intro p l hp
    apply append _ _ hp
    intro label hlabel
    exact ((p.filter_isNone_resolve?_iff l label).1 hlabel).2
  have addAll : ∀ (ls : List Line) (p : Program), motive p → motive (ls.foldl Program.add p) := by
    intro ls
    induction ls with
    | nil => exact fun p hp => hp
    | cons l ls ih => exact fun p hp => ih (p.add l) (add p l hp)
  induction h with
  | empty => exact empty
  | push _ hpush ih =>
    obtain ⟨hfree, rfl⟩ := (push_eq_ok_iff ..).1 hpush
    exact append _ _ ih hfree
  | ofLines ls => exact addAll ls .empty empty
  | setBreakpoint _ hset ih => exact setBreakpoint _ _ _ _ ih hset
  | toggleBreakpoint _ htoggle ih =>
    exact setBreakpoint _ _ _ _ ih (setBreakpoint?_of_toggleBreakpoint? htoggle)

/-- **Every built program is indexed.** -/
theorem Built.indexed {p : Program} (h : p.Built) : p.Indexed := by
  apply h.of_kept indexed_empty
  · exact fun p l hp hfree => hp.append l hfree
  · exact fun p q i on hp hset => hp.setBreakpoint hset

/-! ## §5 The lines of a built program -/

/-- The program that consists of some lines, each of them appended to those before it. -/
def ofAppended (ls : List Line) : Program :=
  ls.foldl append empty

theorem lines_foldl_append (p : Program) (ls : List Line) :
    (ls.foldl append p).lines.toList = p.lines.toList ++ ls := by
  induction ls generalizing p with
  | nil => simp
  | cons l ls ih =>
    rw [List.foldl_cons, ih, append, Array.toList_push, List.append_assoc]
    rfl

/-- Which lines have a breakpoint, and what their instructions are, makes no difference to the index. -/
theorem labels_foldl_append {p q : Program} (hsize : p.size = q.size) (hindex : p.labels = q.labels)
    {ls ks : List Line} (hlabels : ls.map Line.label = ks.map Line.label) :
    (ls.foldl append p).labels = (ks.foldl append q).labels := by
  induction ls generalizing p q ks with
  | nil =>
    obtain rfl : ks = [] := List.map_eq_nil_iff.1 hlabels.symm
    exact hindex
  | cons l ls ih =>
    cases ks with
    | nil => exact absurd hlabels (by simp)
    | cons k ks =>
      obtain ⟨hlabel, hrest⟩ := List.cons.inj hlabels
      apply ih _ _ hrest
      · rw [size_append, size_append, hsize]
      · show enter p.labels p.size l = enter q.labels q.size k
        rw [enter, enter, hlabel, hsize, hindex]

theorem ofAppended_concat (ls : List Line) (l : Line) :
    ofAppended (ls ++ [l]) = (ofAppended ls).append l :=
  List.foldl_append ..

/-- Setting a breakpoint leaves the labels where they are. -/
theorem map_label_of_setBreakpoint? {p q : Program} {i : Nat} {on : Bool}
    (h : p.setBreakpoint? i on = some q) :
    q.lines.toList.map Line.label = p.lines.toList.map Line.label := by
  apply List.ext_getElem?
  intro j
  have hline := line?_of_setBreakpoint? h j
  rw [line?, line?] at hline
  rw [List.getElem?_map, List.getElem?_map, Array.getElem?_toList, Array.getElem?_toList, hline,
    Option.map_map]
  congr 1
  funext l
  show (if j = i then { l with breakpoint := on } else l).label = l.label
  split <;> rfl

/-- **A built program is what its lines give**, whatever operations have built it. -/
theorem Built.eq_ofAppended {p : Program} (h : p.Built) : p = ofAppended p.lines.toList := by
  apply h.of_kept (motive := fun p => p = ofAppended p.lines.toList)
  · rfl
  · intro p l hp _
    rw [append, Array.toList_push, ofAppended_concat, ← hp]
    rfl
  · intro p q i on hp hset
    have hindex : (ofAppended q.lines.toList).labels = (ofAppended p.lines.toList).labels :=
      labels_foldl_append rfl rfl (map_label_of_setBreakpoint? hset)
    have hlines : (ofAppended q.lines.toList).lines = q.lines :=
      Array.toList_inj.1 (lines_foldl_append .empty _)
    calc q = ⟨q.lines, p.labels⟩ := by
          obtain ⟨l, -, rfl⟩ := Option.map_eq_some_iff.1 hset
          rfl
      _ = ⟨(ofAppended q.lines.toList).lines, (ofAppended q.lines.toList).labels⟩ := by
          rw [hlines, hindex, ← hp]
      _ = ofAppended q.lines.toList := rfl

/-- Two built programs with the same lines are the same. -/
theorem Built.eq_of_lines {p q : Program} (hp : p.Built) (hq : q.Built) (h : p.lines = q.lines) :
    p = q := by
  rw [hp.eq_ofAppended, hq.eq_ofAppended, h]

end Dlx.Program
