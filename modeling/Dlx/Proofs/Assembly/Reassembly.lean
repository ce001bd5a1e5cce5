import Dlx.Proofs.Assembly.Assembled
import Dlx.Proofs.Assembly.Fields

/-!
# Assembling the text of a program

A line is *writable* if its label and the label in its instruction are such as can be read from a source
line, and its instruction is one that can be read. The lines of an assembled program are writable, and
the text of a writable line is read back as the line; so the text of an assembled program is assembled to
the same program again.

- **§1** writable lines (`Line.Writable`)
- **§2** what has been read is writable
- **§3** the text of a line, field by field
- **§4** a writable line is read back
- **§5** programs
-/

namespace Dlx

open Assembly
open Text (Blanks Trimmed Solid isBlank)

/-! ## §1 Writable lines -/

namespace Assembly

/-- A text that can be an argument and is not empty, in a line with or without a label. -/
structure IsReference (labelled : Bool) (text : String) : Prop where
  argument : IsArgument text
  nonempty : text ≠ ""
  uncommented : Uncommented text.toList
  feed : '\n' ∉ text.toList
  colon : labelled = false → ':' ∉ text.toList

/-- Registers, numbers and places in memory can be arguments of any line. -/
theorem isReference_of_plain (labelled : Bool) {text : String} (hne : text ≠ "")
    (h : ∀ c ∈ text.toList, isPlain c = true) : IsReference labelled text where
  argument := by
    have hsolid := solid_of_plain (mt String.toList_eq_nil_iff.1 hne) h
    exact ⟨hsolid.2, not_mem_of_plain h rfl⟩
  nonempty := hne
  uncommented := uncommented_of_not_mem (not_mem_of_plain h rfl)
  feed := not_mem_of_plain h rfl
  colon _ := not_mem_of_plain h rfl

end Assembly

/-- A line that can be written as a source line. -/
structure Line.Writable (l : Line) : Prop where
  label : ∀ text, l.label = some text → IsLabel text ∧ Uncommented text.toList
  check : ∀ i, l.instruction = some i → i.check = .ok ()
  destination : ∀ i, l.instruction = some i → i.destination? ≠ some .zero
  reference : ∀ i name, l.instruction = some i → i.label? = some name →
    IsReference l.label.isSome name

/-- All arguments of a writable line can be written, not only labels. -/
theorem Line.Writable.argument {l : Line} (h : l.Writable) {i : Instruction}
    (hi : l.instruction = some i) {a : String} (ha : a ∈ i.arguments) :
    IsReference l.label.isSome a := by
  rw [i.arguments_eq] at ha
  obtain ⟨operand, hoperand, rfl⟩ := List.mem_map.1 ha
  rcases operand.plain_text with ⟨name, rfl⟩ | ⟨hne, hplain⟩
  · exact h.reference i name hi ((i.mem_operands_iff name).1 hoperand)
  · exact isReference_of_plain _ hne hplain

namespace Assembly

/-! ## §2 What has been read -/

/-- **A line that has been read can be written.** -/
theorem writable_of_readLine {raw : List Char} {l : Line} (h : readLine raw = .ok l)
    (hfeed : '\n' ∉ raw) : l.Writable := by
  refine ⟨?label, ?check, ?destination, ?reference⟩
  case label =>
    intro text htext
    obtain ⟨fields, hfields, hline⟩ := (readLine_eq_ok_iff raw l).1 h
    have hlabel := ((fields.toLine_eq_ok_iff l).1 hline).1
    have hwritten := (Fields.ofLine_eq_ok_iff raw fields).1 hfields
    obtain ⟨hlegal, hpart⟩ := hwritten.isLabel (hlabel ▸ htext)
    exact ⟨hlegal, (uncommented_code raw).part hpart⟩
  case check =>
    intro i hi
    obtain ⟨fields, mnemonic, -, -, hread⟩ := instruction_of_readLine h hi
    exact ((readInstruction_eq_ok_iff ..).1 hread).2.1
  case destination =>
    intro i hi
    obtain ⟨fields, mnemonic, -, -, hread⟩ := instruction_of_readLine h hi
    exact ((readInstruction_eq_ok_iff ..).1 hread).2.2.1
  case reference =>
    intro i name hi hname
    -- A label in an instruction is an argument, and so it is a part of the code of the line.
    obtain ⟨fields, mnemonic, hfields, hlabel, hread⟩ := instruction_of_readLine h hi
    obtain ⟨hmem, hne⟩ := mem_of_readInstruction hread hname
    have hwritten := (Fields.ofLine_eq_ok_iff raw fields).1 hfields
    obtain ⟨hargument, hpart, hcolon⟩ := hwritten.isArgument hmem
    refine ⟨hargument, hne, (uncommented_code raw).part hpart, ?_, ?_⟩
    · intro hline
      exact hfeed (code_subset (hpart.subset hline))
    · intro hlabelled
      apply hcolon
      rw [hlabel]
      simpa using hlabelled

/-! ## §3 The text of a line -/

/-- Arguments that are joined by a comma and a space are a list. -/
theorem listed_intercalate {args : List String} (hne : args ≠ [])
    (h : ∀ a ∈ args, IsArgument a) : Listed args (", ".intercalate args).toList := by
  induction args with
  | nil => exact absurd rfl hne
  | cons a args ih =>
    have ha : IsArgument a := h a (List.mem_cons_self ..)
    by_cases hlast : args = []
    · rw [hlast, String.intercalate_singleton]
      exact .single ha
    · have hrest := ih hlast fun b hb => h b (List.mem_cons_of_mem _ hb)
      rw [String.intercalate_cons_of_ne_nil hlast, String.toList_append, String.toList_append,
        List.append_assoc]
      exact .cons ha Text.blanks_nil Text.blanks_space hrest

/-- The text of an instruction is its mnemonic, and what may stand behind an opcode. -/
theorem written_instruction {i : Instruction}
    (h : ∀ a ∈ i.arguments, IsArgument a ∧ a ≠ "") :
    ∃ rest, i.text.toList = i.mnemonic.toList ++ rest ∧ ArgumentsWritten i.arguments rest := by
  unfold Instruction.text
  split
  · rename_i hnone
    exact ⟨[], (List.append_nil _).symm, .inl ⟨hnone, rfl⟩⟩
  · rename_i hsome
    have hlist := listed_intercalate hsome fun a ha => (h a ha).1
    refine ⟨' ' :: (", ".intercalate i.arguments).toList, ?_, ?_⟩
    · rw [String.toList_append, String.toList_append, List.append_assoc]
      rfl
    · -- The only argument is not the empty one.
      refine .inr ⟨[' '], (", ".intercalate i.arguments).toList, by simp, Text.blanks_space, rfl,
        hlist, ?_⟩
      intro hempty
      exact (h "" (by simp [hempty])).2 rfl

/-- A mnemonic is a word, and does not start with the sign of a mark. -/
theorem isWord_mnemonic (i : Instruction) :
    IsWord i.mnemonic ∧ Uncommented i.mnemonic.toList ∧ i.mnemonic.toList.head? ≠ some '>' := by
  obtain ⟨hne, hplain⟩ := i.opcode.plain_mnemonic
  refine ⟨⟨hne, fun c hc => not_blank_of_isPlain (hplain c hc)⟩, ?_, ?_⟩
  · exact uncommented_of_not_mem (not_mem_of_plain hplain rfl)
  · exact fun hhead => not_mem_of_plain hplain rfl (List.mem_of_head? hhead)

/-- An instruction is written with its mnemonic, its arguments, and commas and spaces between them. -/
theorem mem_text_instruction {i : Instruction} {c : Char} (h : c ∈ i.text.toList) :
    isPlain c = true ∨ c = ' ' ∨ c = ',' ∨ ∃ a ∈ i.arguments, c ∈ a.toList := by
  obtain ⟨-, hplain⟩ := i.opcode.plain_mnemonic
  unfold Instruction.text at h
  split at h
  · exact .inl (hplain c h)
  · rw [String.toList_append, String.toList_append, List.mem_append, List.mem_append] at h
    rcases h with (hmnemonic | hspace) | harguments
    · exact .inl (hplain c hmnemonic)
    · exact .inr (.inl (List.mem_singleton.1 hspace))
    · -- Behind the space stand the arguments, and commas and spaces between them.
      rcases Text.mem_intercalate harguments with hseparator | hargument
      · have hboth : c = ',' ∨ c = ' ' := by simpa using hseparator
        exact .inr (hboth.symm.imp_right .inl)
      · exact .inr (.inr (.inr hargument))

/-- The text of an instruction neither is empty nor has blanks at its ends. -/
theorem solid_text_instruction {i : Instruction} (h : ∀ a ∈ i.arguments, IsArgument a ∧ a ≠ "") :
    Solid i.text.toList := by
  have hmnemonic : Solid i.mnemonic.toList := (isWord_mnemonic i).1.solid
  unfold Instruction.text
  split
  · exact hmnemonic
  · rename_i hsome
    have harguments : Solid (", ".intercalate i.arguments).toList := by
      apply Text.solid_intercalate _ hsome
      intro a ha
      exact ⟨mt String.toList_eq_nil_iff.1 (h a ha).2, (h a ha).1.1⟩
    rw [String.toList_append, String.toList_append, List.append_assoc]
    exact hmnemonic.append harguments _

end Assembly

namespace Line

/-- The fields with which a line is written. -/
def fields (l : Line) : Fields :=
  ⟨l.label, l.breakpoint, l.instruction.map Instruction.mnemonic,
    (l.instruction.map Instruction.arguments).getD []⟩

theorem mem_parts {l : Line} {part : String} (h : part ∈ l.parts) :
    (∃ text, l.label = some text ∧ part = text ++ ":") ∨ part = ">" ∨
      ∃ i, l.instruction = some i ∧ part = i.text := by
  rw [parts, List.mem_append, List.mem_append, Option.mem_toList, Option.mem_toList,
    Option.map_eq_some_iff, Option.map_eq_some_iff] at h
  rcases h with (⟨text, htext, rfl⟩ | hmark) | ⟨i, hi, rfl⟩
  · exact .inl ⟨text, htext, rfl⟩
  · refine .inr (.inl ?_)
    split at hmark
    · exact List.mem_singleton.1 hmark
    · exact absurd hmark (by simp)
  · exact .inr (.inr ⟨i, hi, rfl⟩)

/-- The characters of a line are those of its label with a colon, those of its instruction, the sign of
a mark and spaces. -/
theorem mem_text {l : Line} {c : Char} (h : c ∈ l.text.toList) :
    (∃ text, l.label = some text ∧ (c ∈ text.toList ∨ c = ':')) ∨ c = '>' ∨ c = ' ' ∨
      ∃ i, l.instruction = some i ∧ c ∈ i.text.toList := by
  rcases Text.mem_intercalate h with hspace | ⟨part, hpart, hc⟩
  · exact .inr (.inr (.inl (List.mem_singleton.1 hspace)))
  · obtain ⟨text, htext, rfl⟩ | rfl | ⟨i, hi, rfl⟩ := mem_parts hpart
    · rw [String.toList_append, List.mem_append] at hc
      exact .inl ⟨text, htext, hc.imp_right List.mem_singleton.1⟩
    · exact .inr (.inl (List.mem_singleton.1 hc))
    · exact .inr (.inr (.inr ⟨i, hi, hc⟩))

/-- A character that is no sign of the layout occurs in a line only in its label or in an argument. -/
theorem not_mem_text {l : Line} {c : Char} (hplain : isPlain c = false) (hsign : c ∉ [' ', ',', '>'])
    (hlabel : ∀ text, l.label = some text → c ∉ text.toList ∧ c ≠ ':')
    (hargs : ∀ i a, l.instruction = some i → a ∈ i.arguments → c ∉ a.toList) :
    c ∉ l.text.toList := by
  intro hmem
  rcases mem_text hmem with ⟨text, htext, hc | hcolon⟩ | rfl | rfl | ⟨i, hi, hc⟩
  · exact (hlabel text htext).1 hc
  · exact (hlabel text htext).2 hcolon
  · exact hsign (by simp)
  · exact hsign (by simp)
  · rcases mem_text_instruction hc with hmnemonic | rfl | rfl | ⟨a, ha, hc⟩
    · rw [hmnemonic] at hplain
      exact absurd hplain (by simp)
    · exact hsign (by simp)
    · exact hsign (by simp)
    · exact hargs i a hi ha hc

namespace Writable

variable {l : Line}

/-- The arguments of a writable line can be joined to a list. -/
theorem isArgument (h : l.Writable) {i : Instruction} (hi : l.instruction = some i) :
    ∀ a ∈ i.arguments, IsArgument a ∧ a ≠ "" :=
  fun _ ha => ⟨(h.argument hi ha).argument, (h.argument hi ha).nonempty⟩

/-- No blanks stand at the ends of a writable line. -/
theorem trimmed_text (h : l.Writable) : Trimmed l.text.toList := by
  -- A blank line is empty; otherwise the first and the last part decide.
  unfold Line.text
  by_cases hblank : l.parts = []
  · rw [hblank, String.intercalate_nil]
    exact Text.trimmed_nil
  · refine (Text.solid_intercalate " " hblank fun part hpart => ?_).2
    obtain ⟨text, htext, rfl⟩ | rfl | ⟨i, hi, rfl⟩ := mem_parts hpart
    · obtain ⟨⟨-, hchars⟩, -⟩ := h.label text htext
      apply Text.solid_of_not_blank (by simp)
      intro c hc
      rw [String.toList_append, List.mem_append] at hc
      rcases hc with hc | hcolon
      · exact (hchars c hc).1
      · obtain rfl := List.mem_singleton.1 hcolon
        rfl
    · apply Text.solid_of_not_blank (by simp)
      intro c hc
      obtain rfl := List.mem_singleton.1 hc
      rfl
    · exact solid_text_instruction (h.isArgument hi)

/-- A writable line without a label contains no colon. -/
theorem colon_not_mem (h : l.Writable) (hlabel : l.label = none) : ':' ∉ l.text.toList := by
  apply not_mem_text rfl (by decide)
  · intro text htext
    exact absurd (hlabel.symm.trans htext) (by simp)
  · intro i a hi ha
    exact (h.argument hi ha).colon (by simp [hlabel])

/-- A writable line contains no line feed. -/
theorem feed_not_mem (h : l.Writable) : '\n' ∉ l.text.toList := by
  apply not_mem_text rfl (by decide)
  · intro text htext
    -- A line feed is a blank, and there is none in a label.
    obtain ⟨⟨-, hchars⟩, -⟩ := h.label text htext
    exact ⟨fun hmem => absurd (hchars '\n' hmem).1 (by decide), by decide⟩
  · intro i a hi ha
    exact (h.argument hi ha).feed

/-! ## §4 Reading a line back -/

/-- **The text of a writable line is what the grammar says of its fields.** -/
theorem written_text (h : l.Writable) : l.fields.Written l.text.toList := by
  have hcolon := h.colon_not_mem
  obtain ⟨label, mark, instruction⟩ := l
  let behind := (instruction.map Instruction.text).toList
  let rest := (if mark then [">"] else []) ++ behind
  -- From the right to the left: the instruction, then the mark, then the label.
  have hopcode : OpcodeWritten (instruction.map Instruction.mnemonic)
      ((instruction.map Instruction.arguments).getD []) (" ".intercalate behind).toList := by
    cases instruction with
    | none => exact ⟨rfl, by simp [behind]⟩
    | some i =>
      obtain ⟨tail, htext, hargs⟩ := written_instruction (h.isArgument rfl)
      refine ⟨(isWord_mnemonic i).1, tail, ?_, hargs⟩
      simpa [behind] using htext
  -- Without a mark the line must not look as if it had one.
  have hhead : (" ".intercalate behind).toList.head? ≠ some '>' := by
    cases instruction with
    | none => simp [behind]
    | some i =>
      obtain ⟨tail, htext, -⟩ := written_instruction (h.isArgument rfl)
      obtain ⟨⟨hne, -⟩, -, hfirst⟩ := isWord_mnemonic i
      obtain ⟨c, cs, hcons⟩ := List.exists_cons_of_ne_nil (mt String.toList_eq_nil_iff.1 hne)
      rw [hcons] at hfirst
      simp only [behind, Option.map_some, Option.toList_some, String.intercalate_singleton, htext,
        hcons]
      exact hfirst
  have hmark : MarkWritten mark (" ".intercalate behind).toList (" ".intercalate rest).toList := by
    cases mark with
    | false => exact ⟨rfl, hhead⟩
    | true =>
      obtain ⟨w, hw, htext⟩ := Text.exists_intercalate_cons ">" behind
      exact ⟨w, hw, htext⟩
  have hlabel : LabelWritten label (" ".intercalate rest).toList
      (Line.text ⟨label, mark, instruction⟩).toList := by
    cases label with
    | none => exact ⟨rfl, hcolon rfl⟩
    | some text =>
      obtain ⟨w, hw, htext⟩ := Text.exists_intercalate_cons (text ++ ":") rest
      refine ⟨(h.label text rfl).1, w, hw, ?_⟩
      rw [String.toList_append, List.append_assoc] at htext
      exact htext
  exact ⟨_, _, hlabel, hmark, hopcode⟩

theorem uncommented_text (h : l.Writable) : Uncommented l.text.toList := by
  apply h.written_text.uncommented
  · intro label hlabel
    exact (h.label label hlabel).2
  · intro word hword
    obtain ⟨i, -, rfl⟩ := Option.map_eq_some_iff.1 hword
    exact (isWord_mnemonic i).2.1
  · intro a ha
    cases hi : l.instruction with
    | none => simp [fields, hi] at ha
    | some i =>
      have ha : a ∈ i.arguments := by simpa [fields, hi] using ha
      exact (h.argument hi ha).uncommented

/-- **A writable line is read back from its text.** -/
theorem readLine_text (h : l.Writable) : readLine l.text.toList = .ok l := by
  apply (readLine_eq_ok_iff _ l).2
  refine ⟨l.fields, ?_, ?_⟩
  · rw [Fields.ofLine_eq_ok_iff, code_eq_self h.uncommented_text h.trimmed_text]
    exact h.written_text
  · apply (Fields.toLine_eq_ok_iff _ l).2
    refine ⟨rfl, rfl, ?_⟩
    cases hi : l.instruction with
    | none => simp [fields, hi]
    | some i =>
      -- The mnemonic and the arguments are those of the instruction.
      have hnamed : i.label? ≠ some "" := fun hempty => (h.reference i "" hi hempty).nonempty rfl
      have hread := readInstruction_arguments (h.check i hi) (h.destination i hi) hnamed
      simp [fields, hi, hread]

/-- A writable line does not end in a carriage return. -/
theorem return_not_last (h : l.Writable) : l.text.toList.getLast? ≠ some '\r' := by
  intro hlast
  exact absurd (h.trimmed_text.2 '\r' hlast) (by decide)

end Writable

end Line

/-! ## §5 Programs -/

/-- A program is written with a line feed behind every line. -/
theorem Program.toList_text (p : Program) :
    p.text.toList = Text.terminated (p.lines.toList.map fun l => l.text.toList) := by
  simp [Program.text, Text.terminated, String.toList_join, List.flatMap_map]

/-- The lines of the text of a program are the texts of its lines. -/
theorem Program.lines_text {p : Program} (h : ∀ l ∈ p.lines.toList, l.Writable) :
    Text.lines p.text.toList = p.lines.toList.map fun l => l.text.toList := by
  rw [p.toList_text]
  apply Text.lines_terminated
  · intro raw hraw
    obtain ⟨l, hl, rfl⟩ := List.mem_map.1 hraw
    exact (h l hl).feed_not_mem
  · intro raw hraw
    obtain ⟨l, hl, rfl⟩ := List.mem_map.1 hraw
    exact (h l hl).return_not_last

namespace Assembly

/-- Adding source lines adds lines that can be written, and adding their texts adds the same lines. -/
theorem addSources_reread {p q : Program} {raws : List (List Char)} (h : addSources p raws = .ok q)
    (hfeed : ∀ raw ∈ raws, '\n' ∉ raw) :
    ∃ ls : List Line, q.lines.toList = p.lines.toList ++ ls ∧ (∀ l ∈ ls, l.Writable) ∧
      addSources p (ls.map fun l => l.text.toList) = .ok q := by
  induction raws generalizing p with
  | nil =>
    obtain rfl : p = q := Except.ok.inj h
    exact ⟨[], by simp, by simp, rfl⟩
  | cons raw raws ih =>
    rw [addSources] at h
    cases hadd : addSource p raw with
    | error flaw =>
      rw [hadd] at h
      exact absurd h (by simp)
    | ok p' =>
      rw [hadd] at h
      obtain ⟨l, hread, -, rfl⟩ := readLine_of_addSource hadd
      obtain ⟨ls, hlines, hwritable, hagain⟩ := ih h fun r hr => hfeed r (List.mem_cons_of_mem _ hr)
      have hl : l.Writable := writable_of_readLine hread (hfeed raw (List.mem_cons_self ..))
      -- What is added depends on the line that is read only, and the text is read as the same line.
      have hsame : addSource p l.text.toList = .ok (p.append l) := by
        rw [addSource_of_readLine hl.readLine_text, ← addSource_of_readLine hread, hadd]
      refine ⟨l :: ls, ?_, ?_, ?_⟩
      · rw [hlines]
        simp [Program.append]
      · intro k hk
        rcases List.mem_cons.1 hk with rfl | hmem
        · exact hl
        · exact hwritable k hmem
      · rw [List.map_cons, addSources, hsame]
        exact hagain

/-- **The text of an assembled program is assembled to the same program.** -/
theorem assemble_text {source : String} {p : Program} (h : assemble source = .ok p) :
    assemble p.text = .ok p := by
  obtain ⟨ls, hlines, hwritable, hagain⟩ :=
    addSources_reread h fun raw hraw => Text.not_mem_of_mem_lines hraw
  -- There were no lines before, so these are all lines of the program.
  have hls : p.lines.toList = ls := by simpa [Program.empty] using hlines
  have hall : ∀ l ∈ p.lines.toList, l.Writable := hls ▸ hwritable
  rw [assemble, Program.lines_text hall, hls]
  exact hagain

/-- A source text with labels that hold more than letters, and with the least word. -/
def oddSource : String :=
  "a>/b: > JAL x y:>/\r z // comment\n\n\tADDI R031,R0 ,#-2147483648"

/-- The program of that text. -/
def oddProgram : Program :=
  ((Program.empty.append ⟨some "a>/b", true, some (.jump true "x y:>/\r z")⟩).append .blank).append
    ⟨none, false, some (.immediate .add .link .zero Int32.minValue)⟩

theorem assemble_text_odd :
    assemble oddSource = .ok oddProgram ∧
      oddProgram.text = "a>/b: > JAL x y:>/\r z\n\nADDI R31, R0, #-2147483648\n" ∧
      assemble oddProgram.text = .ok oddProgram :=
  ⟨rfl, rfl, assemble_text (show assemble oddSource = .ok oddProgram from rfl)⟩

end Assembly

end Dlx
