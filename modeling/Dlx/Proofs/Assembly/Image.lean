import Dlx.Proofs.Assembly.Reassembly

/-!
# Programs that have a source text

Programs are built in other ways than by assembling a text, and not every program can be the result of
that. Those that can are exactly the ones whose lines can all be written, and then the text of the
program is a source of it.

- **§1** instructions that can stand in a source line (`Instruction.Admissible`)
- **§2** a program with a source text can be written
- **§3** a program that can be written has a source text
- **§4** both together
-/

namespace Dlx

open Assembly

/-! ## §1 Instructions of source lines -/

/-- The instruction can stand in a source line, whatever its label is: neither what is loaded nor what is
computed goes to `R0`, and no product has an immediate operand. -/
def Instruction.Admissible : Instruction → Prop
  | .load rd _ | .register _ rd _ _ => rd ≠ .zero
  | .immediate op rd _ _ => rd ≠ .zero ∧ op ≠ .mult
  | _ => True

theorem Instruction.admissible_iff (i : Instruction) :
    i.Admissible ↔ i.check = .ok () ∧ i.destination? ≠ some .zero := by
  cases i with
  | immediate op rd rs1 value =>
    rw [check_immediate_iff]
    simp [Admissible, destination?, and_comm]
  | jump linking | jumpRegister linking =>
    -- The return line goes to another register than `R0`.
    have hlink : Register.link ≠ .zero := by decide
    cases linking <;> simp [Admissible, check, destination?, hlink]
  | load | register | store | branch | halt => simp [Admissible, check, destination?]

/-- What the label, the instruction and the label in the instruction have to be like so that a line can be
written. -/
theorem Line.writable_iff (l : Line) :
    l.Writable ↔
      (∀ label, l.label = some label → IsLabel label ∧ Uncommented label.toList) ∧
      (∀ i, l.instruction = some i → i.Admissible) ∧
      ∀ i name, l.instruction = some i → i.label? = some name → IsReference l.label.isSome name := by
  constructor
  · intro h
    refine ⟨h.label, ?_, h.reference⟩
    intro i hi
    exact i.admissible_iff.2 ⟨h.check i hi, h.destination i hi⟩
  · intro ⟨hlabel, hadmissible, hreference⟩
    have hread : ∀ i, l.instruction = some i → i.check = .ok () ∧ i.destination? ≠ some .zero :=
      fun i hi => i.admissible_iff.1 (hadmissible i hi)
    exact ⟨hlabel, fun i hi => (hread i hi).1, fun i hi => (hread i hi).2, hreference⟩

namespace Assembly

/-! ## §2 From a source text -/

/-- **The lines of an assembled program can be written.** -/
theorem writable_of_assemble {source : String} {p : Program} (h : assemble source = .ok p) :
    ∀ l ∈ p.lines.toList, l.Writable := by
  obtain ⟨ls, hlines, hwritable, -⟩ :=
    addSources_reread h fun raw hraw => Text.not_mem_of_mem_lines hraw
  rw [hlines]
  simpa [Program.empty] using hwritable

/-! ## §3 To a source text -/

section

variable {p : Program}

/-- The source line at an index of the text of a program is the text of the line there. -/
theorem getElem?_lines_text (h : ∀ l ∈ p.lines.toList, l.Writable) (i : Nat) :
    (Text.lines p.text.toList)[i]? = (p.line? i).map fun l => l.text.toList := by
  rw [Program.lines_text h, List.getElem?_map, Array.getElem?_toList]
  rfl

/-- In the text of a program a label is defined where a line carries it. -/
theorem definedAt_text_iff (h : ∀ l ∈ p.lines.toList, l.Writable) (i : Nat) (label : String) :
    DefinedAt (Text.lines p.text.toList) i label ↔ ∃ l, p.line? i = some l ∧ l.label = some label := by
  rw [DefinedAt, getElem?_lines_text h]
  constructor
  · intro hdefined
    obtain ⟨raw, hraw, hdefines⟩ := hdefined
    obtain ⟨l, hl, rfl⟩ := Option.map_eq_some_iff.1 hraw
    exact ⟨l, hl, (defines_iff (h l (Program.mem_of_line? hl)).readLine_text label).1 hdefines⟩
  · intro hcarried
    obtain ⟨l, hl, hlabel⟩ := hcarried
    refine ⟨l.text.toList, by rw [hl, Option.map_some], ?_⟩
    exact (defines_iff (h l (Program.mem_of_line? hl)).readLine_text label).2 hlabel

/-- There is nothing wrong with the text of an indexed program whose lines can be written. -/
theorem not_flawAt_text (hp : p.Indexed) (h : ∀ l ∈ p.lines.toList, l.Writable) (k : Nat)
    (flaw : Flaw) : ¬ FlawAt (Text.lines p.text.toList) k flaw := by
  apply not_flawAt_of_readLine
  · intro raw hraw
    rw [Program.lines_text h] at hraw
    obtain ⟨l, hl, rfl⟩ := List.mem_map.1 hraw
    exact ⟨l, (h l hl).readLine_text⟩
  · intro label i j hi hj
    obtain ⟨l, hl, hlabel⟩ := (definedAt_text_iff h i label).1 hi
    obtain ⟨k, hk, klabel⟩ := (definedAt_text_iff h j label).1 hj
    exact hp.label_injective hl hk hlabel klabel

/-- A program that describes the text of another one has the same lines. -/
theorem Describes.lines_eq {q : Program} (hq : Describes q (Text.lines p.text.toList))
    (h : ∀ l ∈ p.lines.toList, l.Writable) : q.lines = p.lines := by
  have hsize : q.size = p.size := by
    rw [hq.size, Program.lines_text h, List.length_map, Array.length_toList]
    rfl
  apply Array.ext_getElem?
  intro i
  show q.line? i = p.line? i
  cases hl : p.line? i with
  | none =>
    have hout : ¬ i < q.size := by
      rw [hsize, p.lt_size_iff, hl]
      simp
    exact Array.getElem?_eq_none_iff.2 (Nat.le_of_not_lt hout)
  | some l =>
    have hraw : (Text.lines p.text.toList)[i]? = some l.text.toList := by
      rw [getElem?_lines_text h, hl, Option.map_some]
    -- What the source line describes is the line that has been written there.
    obtain ⟨k, hread, hk⟩ := hq.line i _ hraw
    obtain rfl := Except.ok.inj (hread.symm.trans (h l (Program.mem_of_line? hl)).readLine_text)
    exact hk

/-- **A built program whose lines can be written is assembled from its text.** -/
theorem assemble_text_of_writable (hp : p.Built) (h : ∀ l ∈ p.lines.toList, l.Writable) :
    assemble p.text = .ok p := by
  cases hassembled : assemble p.text with
  | error e =>
    have hflaw := (firstFlaw_of_assemble hassembled).here
    exact absurd hflaw (not_flawAt_text hp.indexed h e.line e.flaw)
  | ok q =>
    have hlines := (describes_of_assemble hassembled).lines_eq h
    rw [(built_of_assemble hassembled).eq_of_lines hp hlines]

end

/-! ## §4 Both together -/

/-- **The programs that assembling gives.** However a program has been built, there is a source text of it
exactly if each of its lines is well formed: its label can be a label and starts no comment; nothing is
loaded or computed into `R0`, and no product has an immediate operand; and a label to which it branches or
jumps can be an argument and is not empty, contains no line feed and starts no comment, and contains a
colon only if the line has a label itself. -/
theorem exists_source_iff {p : Program} (hp : p.Built) :
    (∃ source, assemble source = .ok p) ↔ ∀ l ∈ p.lines.toList,
      (∀ label, l.label = some label → IsLabel label ∧ Uncommented label.toList) ∧
      (∀ i, l.instruction = some i → i.Admissible) ∧
      ∀ i name, l.instruction = some i → i.label? = some name →
        IsReference l.label.isSome name := by
  constructor
  · intro ⟨source, hsource⟩ l hl
    exact l.writable_iff.1 (writable_of_assemble hsource l hl)
  · intro hlines
    refine ⟨p.text, assemble_text_of_writable hp ?_⟩
    intro l hl
    exact l.writable_iff.2 (hlines l hl)

/-- A line that jumps to a label with a colon. -/
def colonLine (label : Option String) : Line :=
  ⟨label, false, some (.jump false "a:b")⟩

/-- There is a source text of such a line only if it has a label itself, which then ends at the first
colon. -/
theorem exists_source_colonLine :
    (∃ source, assemble source = .ok (.ofLines [colonLine (some "x")])) ∧
      ¬ ∃ source, assemble source = .ok (.ofLines [colonLine none]) := by
  constructor
  · apply (exists_source_iff (.ofLines [colonLine (some "x")])).2
    intro l hl
    obtain rfl : l = colonLine (some "x") := List.mem_singleton.1 hl
    refine ⟨?label, ?instruction, ?reference⟩
    case label =>
      intro label hlabel
      obtain rfl := Option.some.inj hlabel
      refine ⟨⟨by decide, ?_⟩, uncommented_of_not_mem (by decide)⟩
      intro c hc
      obtain rfl : c = 'x' := List.mem_singleton.1 hc
      exact ⟨rfl, by decide⟩
    case instruction =>
      intro i hi
      obtain rfl := Option.some.inj hi
      trivial
    case reference =>
      intro i name hi hname
      obtain rfl := Option.some.inj hi
      obtain rfl := Option.some.inj hname
      have htrimmed : Text.Trimmed "a:b".toList := by
        refine ⟨?_, ?_⟩
        · intro c hc
          obtain rfl : 'a' = c := Option.some.inj hc
          rfl
        · intro c hc
          obtain rfl : 'b' = c := Option.some.inj hc
          rfl
      exact ⟨⟨htrimmed, by decide⟩, by decide, uncommented_of_not_mem (by decide), by decide, nofun⟩
  · intro hsource
    have hlines := (exists_source_iff (.ofLines [colonLine none])).1 hsource
    obtain ⟨-, -, hreference⟩ := hlines (colonLine none) (List.mem_singleton_self _)
    have hcolon := (hreference _ _ rfl rfl).colon rfl
    exact absurd hcolon (by decide)

end Assembly

end Dlx
