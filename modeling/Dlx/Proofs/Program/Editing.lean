import Dlx.Proofs.Program

/-!
# Editing a program

A program is collected from a list of lines, or has none at first, and is then edited: lines are pushed,
and breakpoints are set and turned over. An edit can be refused, and then it has no effect. Whatever is
done to a program, its table and its index stay in step; so the index says at any time which labels are
taken, and by which lines.

- **§1** edits
- **§2** pushes that are refused, and pushes that are accepted
- **§3** what is collected from a list of lines (`Collects`)
- **§4** the table and the index after any edits (`Consistent`)
-/

namespace Dlx

/-! ## §1 Edits -/

/-- An edit of a program. -/
inductive Edit where
  | push (l : Line)
  | setBreakpoint (i : Nat) (on : Bool)
  | toggleBreakpoint (i : Nat)
  deriving DecidableEq, Repr

namespace Program

/-- The program after an edit, which is the same as before if the edit is refused. -/
def edit (p : Program) : Edit → Program
  | .push l =>
    match p.push l with
    | .ok q => q
    | .error _ => p
  | .setBreakpoint i on => (p.setBreakpoint? i on).getD p
  | .toggleBreakpoint i => ((p.toggleBreakpoint? i).map Prod.snd).getD p

theorem edit_push_of_ok {p q : Program} {l : Line} (h : p.push l = .ok q) : p.edit (.push l) = q := by
  rw [edit, h]

theorem edit_push_of_error {p : Program} {l : Line} {earlier : Nat} (h : p.push l = .error earlier) :
    p.edit (.push l) = p := by
  rw [edit, h]

/-- An edit of a built program gives a built program. -/
theorem Built.edit {p : Program} (h : p.Built) (e : Edit) : (p.edit e).Built := by
  cases e with
  | push l =>
    cases hpush : p.push l with
    | error earlier => rwa [edit_push_of_error hpush]
    | ok q =>
      rw [edit_push_of_ok hpush]
      exact h.push hpush
  | setBreakpoint i on =>
    rw [Program.edit]
    cases hset : p.setBreakpoint? i on with
    | none => exact h
    | some q => exact h.setBreakpoint hset
  | toggleBreakpoint i =>
    rw [Program.edit]
    cases htoggle : p.toggleBreakpoint? i with
    | none => exact h
    | some answer => exact h.toggleBreakpoint htoggle

theorem Built.edits {p : Program} (h : p.Built) (es : List Edit) : (es.foldl Program.edit p).Built := by
  induction es generalizing p with
  | nil => exact h
  | cons e es ih => exact ih (h.edit e)

/-! ## §2 Pushes -/

/-- A line is refused for a label that resolves to an earlier line. -/
theorem push_eq_error_iff (p : Program) (l : Line) (earlier : Nat) :
    p.push l = .error earlier ↔ ∃ label, l.label = some label ∧ p.resolve? label = some earlier := by
  rw [push]
  cases hlabel : l.label with
  | none => simp
  | some label => cases hresolve : p.resolve? label <;> simp [hresolve]

/-- In an indexed program that is the line that carries the label. -/
theorem Indexed.push_eq_error_iff {p : Program} (h : p.Indexed) (l : Line) (earlier : Nat) :
    p.push l = .error earlier ↔
      ∃ label k, l.label = some label ∧ p.line? earlier = some k ∧ k.label = some label := by
  rw [Program.push_eq_error_iff]
  constructor
  · intro ⟨label, hlabel, hresolve⟩
    obtain ⟨k, hk, hcarried⟩ := (h label earlier).1 hresolve
    exact ⟨label, k, hlabel, hk, hcarried⟩
  · intro ⟨label, k, hlabel, hk, hcarried⟩
    exact ⟨label, hlabel, (h label earlier).2 ⟨k, hk, hcarried⟩⟩

/-- A label resolves to no line of an indexed program exactly if no line carries it. -/
theorem Indexed.resolve?_eq_none_iff {p : Program} (h : p.Indexed) (label : String) :
    p.resolve? label = none ↔ ∀ i k, p.line? i = some k → k.label ≠ some label := by
  rw [Option.eq_none_iff_forall_ne_some]
  constructor
  · intro hnone i k hk hcarried
    exact hnone i ((h label i).2 ⟨k, hk, hcarried⟩)
  · intro hfree i hresolve
    obtain ⟨k, hk, hcarried⟩ := (h label i).1 hresolve
    exact hfree i k hk hcarried

/-- A line is accepted in an indexed program if no line carries its label, and is added as it is. -/
theorem Indexed.push_eq_ok_iff {p : Program} (h : p.Indexed) (l : Line) (q : Program) :
    p.push l = .ok q ↔
      (∀ label, l.label = some label → ∀ i k, p.line? i = some k → k.label ≠ some label) ∧
        q = p.append l := by
  simp only [Program.push_eq_ok_iff, h.resolve?_eq_none_iff]

/-- What a program holds after a push: the new line at its end, and the lines that it has held before. -/
theorem line?_of_push {p q : Program} {l : Line} (h : p.push l = .ok q) (i : Nat) :
    q.line? i = if i = p.size then some l else p.line? i := by
  obtain ⟨-, rfl⟩ := (Program.push_eq_ok_iff ..).1 h
  exact line?_append p l i

/-! ## §3 Lists of lines -/

/-- A line as it is kept behind others: it is the same but for its label, which it has only if none of
those carries it. -/
structure KeptBehind (before : List Line) (l kept : Line) : Prop where
  instruction : kept.instruction = l.instruction
  breakpoint : kept.breakpoint = l.breakpoint
  label : ∀ label,
    kept.label = some label ↔ l.label = some label ∧ ∀ k ∈ before, k.label ≠ some label

/-- A program holds a list of lines, each of them as it is kept behind those in front of it. -/
structure Collects (p : Program) (ls : List Line) : Prop where
  size : p.size = ls.length
  line : ∀ i l, ls[i]? = some l → ∃ kept, p.line? i = some kept ∧ KeptBehind (ls.take i) l kept
  free : ∀ label, p.resolve? label = none ↔ ∀ l ∈ ls, l.label ≠ some label

theorem collects_empty : Collects .empty [] where
  size := rfl
  line i l h := by simp at h
  free label := by simp [empty, resolve?]

/-- One more line is kept behind all others. -/
theorem Collects.add {p : Program} {ls : List Line} (h : Collects p ls) (l : Line) :
    Collects (p.add l) (ls ++ [l]) where
  size := by rw [Program.add, size_append, h.size, List.length_append, List.length_singleton]
  line i k hk := by
    rw [Program.add, line?_append, h.size]
    by_cases hi : i = ls.length
    · subst hi
      obtain rfl : l = k := by simpa using hk
      refine ⟨_, if_pos rfl, rfl, rfl, fun label => ?_⟩
      rw [List.take_left, filter_isNone_resolve?_iff, h.free]
    · have hlt : i < ls.length := by
        have := (List.getElem?_eq_some_iff.1 hk).1
        simp at this
        omega
      rw [List.getElem?_append_left hlt] at hk
      obtain ⟨kept, hkept, hkeeps⟩ := h.line i k hk
      refine ⟨kept, by rw [if_neg hi, hkept], ?_⟩
      rwa [List.take_append_of_le_length (Nat.le_of_lt hlt)]
  free label := by
    rw [Program.add, resolve?_append, List.forall_mem_append, List.forall_mem_singleton, ← h.free]
    -- The label is entered with this line exactly if the line carries it and it has been free.
    by_cases hown : l.label = some label
    · by_cases hfree : p.resolve? label = none
      · rw [if_pos ((filter_isNone_resolve?_iff p l label).2 ⟨hown, hfree⟩)]
        simp [hown]
      · rw [if_neg fun hkept => hfree ((filter_isNone_resolve?_iff p l label).1 hkept).2]
        simp [hfree]
    · rw [if_neg fun hkept => hown ((filter_isNone_resolve?_iff p l label).1 hkept).1]
      simp [hown]

theorem Collects.foldl_add {p : Program} {before : List Line} (h : Collects p before)
    (ls : List Line) : Collects (ls.foldl Program.add p) (before ++ ls) := by
  -- The program grows with the lines in front, so both are general in the induction.
  induction ls generalizing p before with
  | nil => rwa [List.append_nil]
  | cons l ls ih =>
    rw [List.foldl_cons, List.append_cons]
    exact ih (h.add l)

/-- **A list of lines is collected line by line.** Each line keeps its place, its instruction and its
breakpoint, and a label stays where it occurs first. -/
theorem collects_ofLines (ls : List Line) : Collects (ofLines ls) ls :=
  collects_empty.foldl_add ls

/-- A label that occurs three times stays in the first place. -/
example :
    (ofLines [⟨some "a", false, none⟩, ⟨some "a", true, some .halt⟩, ⟨some "b", false, none⟩,
      ⟨some "a", false, some .halt⟩]).lines.toList =
    [⟨some "a", false, none⟩, ⟨none, true, some .halt⟩, ⟨some "b", false, none⟩,
      ⟨none, false, some .halt⟩] := rfl

/-! ## §4 Table and index -/

/-- The table and the index of a program are in step: a label resolves to a line of the program exactly if
that line carries it, no label is carried by two lines, and a push is refused exactly for a label that some
line carries, with the index of that line as the answer and without any effect. Any other push adds its
line at the end, and changes no line in front of it. -/
structure Consistent (p : Program) : Prop where
  resolve : ∀ label i,
    p.resolve? label = some i ↔ i < p.size ∧ ∃ l, p.line? i = some l ∧ l.label = some label
  distinct : ∀ label i j l k, p.line? i = some l → p.line? j = some k →
    l.label = some label → k.label = some label → i = j
  refused : ∀ l earlier, p.push l = .error earlier ↔
    ∃ label k, l.label = some label ∧ p.line? earlier = some k ∧ k.label = some label
  unchanged : ∀ l earlier, p.push l = .error earlier → p.edit (.push l) = p
  accepted : ∀ l q, p.push l = .ok q ↔
    (∀ label, l.label = some label → ∀ i k, p.line? i = some k → k.label ≠ some label) ∧ q = p.append l
  added : ∀ l q, p.push l = .ok q → p.edit (.push l) = q ∧
    ∀ i, q.line? i = if i = p.size then some l else p.line? i

theorem Built.consistent {p : Program} (h : p.Built) : p.Consistent where
  resolve label i := by
    rw [h.indexed label i, iff_and_self]
    intro ⟨l, hl, _⟩
    exact lt_size_of_line? hl
  distinct _ _ _ _ _ hl hk hlabel klabel := h.indexed.label_injective hl hk hlabel klabel
  refused := h.indexed.push_eq_error_iff
  unchanged _ _ := edit_push_of_error
  accepted := h.indexed.push_eq_ok_iff
  added _ _ hpush := ⟨edit_push_of_ok hpush, line?_of_push hpush⟩

/-- **The table and the index of a program never drift apart.** They are in step after any edits of a new
program, and of a program that has been collected from a list of lines. What is collected from a list are
its lines in their order, each with its instruction and its breakpoint, and with its label exactly if no
line in front of it in the list carries that label. -/
theorem consistent_edits (ls : List Line) (es : List Edit) :
    (es.foldl edit .empty).Consistent ∧ (es.foldl edit (ofLines ls)).Consistent ∧ (ofLines ls).Collects ls :=
  ⟨(Built.empty.edits es).consistent, ((Built.ofLines ls).edits es).consistent, collects_ofLines ls⟩

end Program

end Dlx
