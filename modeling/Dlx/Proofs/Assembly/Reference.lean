import Dlx.Proofs.Assembly.Image
import Dlx.Proofs.Assembly.Verdict

/-!
# Labels in front of a line and behind a jump

Different characters end a label in the two places where it is written. In front of a line it goes up to
the first colon, and blanks are the only other characters that are refused. Behind an opcode it is an
argument, and goes up to the next comma. So a label with a comma can be defined, and no jump can name it.
Every other label of an assembled program can be named by a jump, and resolves to the line that it stands
in front of.

- **§1** what stands behind an opcode and a space
- **§2** a jump as a source line
- **§3** jumps to the labels of a program
-/

namespace Dlx

/-! ## §1 Behind an opcode -/

/-- There is one piece more than there are separators. -/
theorem Text.length_splitOn (separator : Char) (cs : List Char) :
    (splitOn separator cs).length = cs.count separator + 1 := by
  induction cs using splitOn_induction separator with
  | single piece hpiece =>
    rw [splitOn_of_not_mem hpiece, List.count_eq_zero_of_not_mem hpiece, List.length_singleton]
  | cons piece rest hpiece ih =>
    rw [splitOn_append_cons hpiece, List.length_cons, ih, List.count_append,
      List.count_eq_zero_of_not_mem hpiece, List.count_cons_self, Nat.zero_add]

namespace Assembly

theorem IsLabel.colon_not_mem {label : String} (h : IsLabel label) : ':' ∉ label.toList :=
  fun hmem => (h.2 ':' hmem).2 rfl

/-- A label without a comma is one argument. -/
theorem splitArguments_of_label {label : String} (h : IsLabel label) (hcomma : ',' ∉ label.toList) :
    splitArguments (' ' :: label.toList) = [label] := by
  apply splitArguments_of_written
  refine .inr ⟨[' '], label.toList, by simp, Text.blanks_space, rfl, .single ⟨h.solid.2, hcomma⟩, ?_⟩
  intro hempty
  exact h.1 (List.singleton_inj.1 hempty)

/-- The commas of a label separate arguments. -/
theorem length_splitArguments_of_label {label : String} (h : IsLabel label) :
    (splitArguments (' ' :: label.toList)).length = label.toList.count ',' + 1 := by
  have htrim : Text.trim (' ' :: label.toList) = label.toList := by
    rw [← List.singleton_append, Text.trim_blanks_append Text.blanks_space, h.solid.2.trim_eq]
  rw [splitArguments_eq, htrim, if_neg h.solid.1, List.length_map, List.length_map,
    Text.length_splitOn, List.count_cons_of_ne (by decide)]

/-- The fields of a line that consists of a mnemonic and a label, with a space between them. -/
theorem Fields.ofLine_mnemonic_label (i : Instruction) {label : String} (h : IsLabel label)
    (hcomment : Uncommented label.toList) :
    Fields.ofLine (i.mnemonic ++ " " ++ label).toList =
      .ok ⟨none, false, some i.mnemonic, splitArguments (' ' :: label.toList)⟩ := by
  obtain ⟨hword, hbefore, hmark⟩ := isWord_mnemonic i
  have hsplit : (i.mnemonic ++ " " ++ label).toList = i.mnemonic.toList ++ ' ' :: label.toList := by
    simp
  have hmnemonic : Text.Solid i.mnemonic.toList := hword.solid
  -- There is nothing to cut off in front of the opcode or behind the label.
  have hcode : code (i.mnemonic.toList ++ ' ' :: label.toList) =
      i.mnemonic.toList ++ ' ' :: label.toList := by
    apply code_eq_self
    · exact hbefore.append (hcomment.cons (by decide)) (by simp)
    · exact (hmnemonic.append h.solid [' ']).2
  have hcolon : ':' ∉ i.mnemonic.toList ++ ' ' :: label.toList := by
    rw [List.mem_append, List.mem_cons, not_or, not_or]
    exact ⟨not_mem_of_plain i.opcode.plain_mnemonic.2 rfl, by decide, h.colon_not_mem⟩
  have hhead : (i.mnemonic.toList ++ ' ' :: label.toList).head? ≠ some '>' := by
    rw [List.head?_append, Option.or_of_isSome (by simpa using hmnemonic.1)]
    exact hmark
  have hbehind : ArgumentsWritten (splitArguments (' ' :: label.toList)) (' ' :: label.toList) := by
    apply written_splitArguments
    · intro c hc
      obtain rfl : ' ' = c := Option.some.inj hc
      rfl
    · rw [List.getLast?_cons_of_ne_nil h.solid.1]
      exact h.solid.2.2
  rw [hsplit, Fields.ofLine_eq_ok_iff, hcode]
  exact ⟨_, _, ⟨rfl, hcolon⟩, ⟨rfl, hhead⟩, hword, _, rfl, hbehind⟩

/-! ## §2 A jump as a source line -/

/-- A line that consists of a mnemonic and a label is read as one without a label and a mark of its own. -/
theorem readLine_mnemonic_label (i : Instruction) {label : String} (h : IsLabel label)
    (hcomment : Uncommented label.toList) :
    readLine (i.mnemonic ++ " " ++ label).toList =
      (readInstruction i.mnemonic (splitArguments (' ' :: label.toList))).map
        fun j => ⟨none, false, some j⟩ := by
  simp only [readLine, Fields.ofLine_mnemonic_label i h hcomment, bind, Except.bind, Fields.toLine]
  cases readInstruction i.mnemonic (splitArguments (' ' :: label.toList)) <;> rfl

/-- A jump can name a label without a comma. -/
theorem readLine_jump_of_not_mem (linking : Bool) {label : String} (h : IsLabel label)
    (hcomment : Uncommented label.toList) (hcomma : ',' ∉ label.toList) :
    readLine ((Instruction.jump linking label).mnemonic ++ " " ++ label).toList =
      .ok ⟨none, false, some (.jump linking label)⟩ := by
  have hread : readInstruction (Instruction.jump linking label).mnemonic [label] =
      .ok (.jump linking label) :=
    readInstruction_of_verdict <|
      .instruction rfl (.cons (.label h.1) .nil) fun hreceives => nomatch hreceives.1
  rw [readLine_mnemonic_label _ h hcomment, splitArguments_of_label h hcomma, hread]
  rfl

/-- With a label that contains commas a jump has too many arguments. -/
theorem readLine_jump_of_mem (linking : Bool) {label : String} (h : IsLabel label)
    (hcomment : Uncommented label.toList) (hcomma : ',' ∈ label.toList) :
    readLine ((Instruction.jump linking label).mnemonic ++ " " ++ label).toList =
      .error (.argumentCount (Instruction.jump linking label).mnemonic 1
        (label.toList.count ',' + 1)) := by
  have hlength := length_splitArguments_of_label h
  have hmany : (splitArguments (' ' :: label.toList)).length ≠ 1 := by
    have hpos := List.count_pos_iff.2 hcomma
    omega
  have hread : readInstruction (Instruction.jump linking label).mnemonic _ = _ :=
    readInstruction_of_verdict (.count rfl hmany)
  rw [readLine_mnemonic_label _ h hcomment, hread, hlength]
  rfl

/-! ## §3 Jumps to the labels of a program -/

/-- The labels of an assembled program stand in front of its lines. -/
theorem isLabel_of_resolve? {source : String} {p : Program} (h : assemble source = .ok p)
    {label : String} {i : Nat} (hlabel : p.resolve? label = some i) :
    IsLabel label ∧ Uncommented label.toList := by
  obtain ⟨l, hl, hown⟩ := ((built_of_assemble h).indexed label i).1 hlabel
  exact (writable_of_assemble h l (Program.mem_of_line? hl)).label label hown

/-- **Which labels a jump can name.** Let a label of an assembled program be given, which is that of some
line of it. If the label contains no comma, then `J` with this label behind it is a source line, and it
jumps to a label that resolves to that line. If it contains commas, then this is no source line, because
`J` has too many arguments in it: one more than there are commas. -/
theorem readLine_jump_of_assemble {source : String} {p : Program} (h : assemble source = .ok p)
    {label : String} {i : Nat} (hlabel : p.resolve? label = some i) :
    (',' ∉ label.toList → ∃ name,
      readLine ("J " ++ label).toList = .ok ⟨none, false, some (.jump false name)⟩ ∧
        p.resolve? name = some i) ∧
    (',' ∈ label.toList →
      readLine ("J " ++ label).toList =
        .error (.argumentCount "J" 1 (label.toList.count ',' + 1))) := by
  obtain ⟨hlegal, hcomment⟩ := isLabel_of_resolve? h hlabel
  constructor
  · intro hcomma
    exact ⟨label, readLine_jump_of_not_mem false hlegal hcomment hcomma, hlabel⟩
  · intro hcomma
    exact readLine_jump_of_mem false hlegal hcomment hcomma

/-- The program whose only line carries a label and halts. -/
def haltingAt (label : String) : Program :=
  Program.empty.append ⟨some label, false, some .halt⟩

theorem readLine_jump_of_assemble_mark :
    assemble ">a/b: HALT" = .ok (haltingAt ">a/b") ∧ (haltingAt ">a/b").resolve? ">a/b" = some 0 ∧
      ∃ name, readLine "J >a/b".toList = .ok ⟨none, false, some (.jump false name)⟩ ∧
        (haltingAt ">a/b").resolve? name = some 0 := by
  have hassemble : assemble ">a/b: HALT" = .ok (haltingAt ">a/b") := rfl
  have hlabel : (haltingAt ">a/b").resolve? ">a/b" = some 0 := rfl
  have hline : "J " ++ ">a/b" = "J >a/b" := by decide
  have hjump := (readLine_jump_of_assemble hassemble hlabel).1 (by decide)
  rw [hline] at hjump
  exact ⟨hassemble, hlabel, hjump⟩

/-- **Not every label can be named.** A label with a comma can be defined, but a jump to it has two
arguments. -/
theorem not_readLine_jump_comma :
    assemble "a,b: HALT" = .ok (haltingAt "a,b") ∧ (haltingAt "a,b").resolve? "a,b" = some 0 ∧
      readLine "J a,b".toList = .error (.argumentCount "J" 1 2) ∧
      ¬ ∀ (source : String) (p : Program) (label : String) (i : Nat),
        assemble source = .ok p → p.resolve? label = some i →
        ∃ name, readLine ("J " ++ label).toList = .ok ⟨none, false, some (.jump false name)⟩ ∧
          p.resolve? name = some i := by
  have hassemble : assemble "a,b: HALT" = .ok (haltingAt "a,b") := rfl
  have hlabel : (haltingAt "a,b").resolve? "a,b" = some 0 := rfl
  have hline : "J " ++ "a,b" = "J a,b" := by decide
  have hrefused : readLine "J a,b".toList = .error (.argumentCount "J" 1 2) := rfl
  refine ⟨hassemble, hlabel, hrefused, fun hall => ?_⟩
  obtain ⟨name, hname, -⟩ := hall _ _ _ _ hassemble hlabel
  rw [hline, hrefused] at hname
  exact absurd hname (by simp)

end Assembly

end Dlx
