import Dlx.Assembly.Fields
import Dlx.Proofs.Text

/-!
# The grammar of a source line

Cutting a line into its fields is a matter of searching and trimming. What it comes to is a grammar: the
fields are read from a line exactly if the line, without its comment and the blanks around the rest, is
written as a label and a colon, a mark, and an opcode with its arguments, with blanks between these
parts, each of which may be missing.

- **§1** comments (`Uncommented`)
- **§2** the grammar (`Fields.Written`)
- **§3** arguments
- **§4** opcode, mark and label
- **§5** a whole line
-/

namespace Dlx.Assembly

open Text (Blanks Trimmed isBlank)

/-! ## §1 Comments -/

/-- No comment starts in a text. -/
def Uncommented (cs : List Char) : Prop :=
  ¬ ['/', '/'] <:+: cs

theorem uncommented_nil : Uncommented [] := by
  intro h
  exact absurd (List.eq_nil_of_infix_nil h) (by simp)

/-- A part of a text without a comment has none. -/
theorem Uncommented.part {cs ds : List Char} (h : Uncommented ds) (hpart : cs <:+: ds) :
    Uncommented cs :=
  fun hslashes => h (hslashes.trans hpart)

theorem uncommented_cons_iff (c : Char) (cs : List Char) :
    Uncommented (c :: cs) ↔ ¬ (c = '/' ∧ cs.head? = some '/') ∧ Uncommented cs := by
  rw [Uncommented, Uncommented, List.infix_cons_iff, not_or, List.cons_prefix_cons]
  cases cs with
  | nil => simp
  | cons d ds => simp [eq_comm]

/-- A character that is no slash starts no comment. -/
theorem Uncommented.cons {c : Char} {cs : List Char} (h : Uncommented cs) (hc : c ≠ '/') :
    Uncommented (c :: cs) :=
  (uncommented_cons_iff c cs).2 ⟨fun hslashes => hc hslashes.1, h⟩

/-- A comment does not start where two texts meet, unless the second one starts with a slash. -/
theorem Uncommented.append {cs ds : List Char} (hcs : Uncommented cs) (hds : Uncommented ds)
    (hhead : ds.head? ≠ some '/') : Uncommented (cs ++ ds) := by
  induction cs with
  | nil => exact hds
  | cons c cs ih =>
    obtain ⟨hslashes, hrest⟩ := (uncommented_cons_iff c cs).1 hcs
    apply (uncommented_cons_iff c (cs ++ ds)).2
    refine ⟨?_, ih hrest⟩
    rintro ⟨hc, hnext⟩
    cases cs with
    | nil => exact hhead hnext
    | cons d cs => exact hslashes ⟨hc, hnext⟩

theorem uncommented_of_not_mem {cs : List Char} (h : '/' ∉ cs) : Uncommented cs := by
  intro hslashes
  exact h (hslashes.subset (List.mem_cons_self ..))

/-- Blanks in front start no comment. -/
theorem Uncommented.blanks_append {w cs : List Char} (h : Uncommented cs) (hw : Blanks w) :
    Uncommented (w ++ cs) := by
  induction w with
  | nil => exact h
  | cons c w ih =>
    have hslash : '/' ∉ c :: w := Text.not_mem_blanks hw rfl
    rw [List.mem_cons, not_or] at hslash
    have hrest := ih fun d hd => hw d (List.mem_cons_of_mem _ hd)
    exact hrest.cons (Ne.symm hslash.1)

/-- Blanks do not start with a slash. -/
theorem head_blanks_append {w cs : List Char} (hw : Blanks w) (hcs : cs.head? ≠ some '/') :
    (w ++ cs).head? ≠ some '/' := by
  cases w with
  | nil => exact hcs
  | cons c w =>
    intro hhead
    obtain rfl : c = '/' := by simpa using hhead
    exact Text.not_mem_blanks hw rfl (List.mem_cons_self ..)

/-- Blanks behind a text start no comment. -/
theorem Uncommented.append_blanks {cs v : List Char} (h : Uncommented cs) (hv : Blanks v) :
    Uncommented (cs ++ v) := by
  have hhead : (v ++ []).head? ≠ some '/' := head_blanks_append hv (by simp)
  rw [List.append_nil] at hhead
  exact h.append (uncommented_of_not_mem (Text.not_mem_blanks hv rfl)) hhead

/-- Blanks keep the end of a text from the slash of a comment. -/
theorem Uncommented.append_blanks_slash {cs v : List Char} (h : Uncommented cs) (hv : Blanks v)
    (hne : v ≠ []) : Uncommented (cs ++ (v ++ ['/'])) := by
  obtain ⟨c, v, rfl⟩ := List.exists_cons_of_ne_nil hne
  have hslash : Uncommented ['/'] := (uncommented_cons_iff '/' []).2 ⟨by simp, uncommented_nil⟩
  have hhead : c ≠ '/' := by
    rintro rfl
    exact Text.not_mem_blanks hv rfl (List.mem_cons_self ..)
  exact h.append (hslash.blanks_append hv) (by simpa using hhead)

/-- A text without a comment is kept as it is. -/
theorem Uncommented.beforeComment_eq {cs : List Char} (h : Uncommented cs) : beforeComment cs = cs := by
  induction cs with
  | nil => rfl
  | cons c cs ih =>
    obtain ⟨hslashes, hrest⟩ := (uncommented_cons_iff c cs).1 h
    rw [beforeComment_cons c cs hslashes, ih hrest]

/-- What is kept is the front of the text. -/
theorem exists_comment (cs : List Char) : ∃ comment, cs = beforeComment cs ++ comment := by
  induction cs with
  | nil => exact ⟨[], rfl⟩
  | cons c cs ih =>
    by_cases h : c = '/' ∧ cs.head? = some '/'
    · -- The comment starts here, so nothing is kept.
      obtain ⟨rfl, hslash⟩ := h
      obtain ⟨rest, rfl⟩ := List.head?_eq_some_iff.1 hslash
      exact ⟨'/' :: '/' :: rest, rfl⟩
    · obtain ⟨comment, hcomment⟩ := ih
      refine ⟨comment, ?_⟩
      rw [beforeComment_cons c cs h, List.cons_append, ← hcomment]

/-- What is kept contains no comment. -/
theorem uncommented_beforeComment (cs : List Char) : Uncommented (beforeComment cs) := by
  induction cs with
  | nil => exact uncommented_nil
  | cons c cs ih =>
    by_cases h : c = '/' ∧ cs.head? = some '/'
    · obtain ⟨rfl, hslash⟩ := h
      obtain ⟨rest, rfl⟩ := List.head?_eq_some_iff.1 hslash
      exact uncommented_nil
    · rw [beforeComment_cons c cs h]
      refine (uncommented_cons_iff c _).2 ⟨?_, ih⟩
      rintro ⟨hc, hslash⟩
      -- The second slash would have followed the first one in the text already.
      obtain ⟨comment, hcomment⟩ := exists_comment cs
      apply h
      refine ⟨hc, ?_⟩
      rw [hcomment, List.head?_append, hslash]
      rfl

/-- The code of a line is a part of what stands before the comment. -/
theorem code_part (raw : List Char) : code raw <:+: beforeComment raw := by
  obtain ⟨w, v, -, -, hcode⟩ := Text.exists_trim (beforeComment raw)
  refine ⟨w, v, ?_⟩
  rw [code, List.append_assoc, ← hcode]

theorem code_subset {raw : List Char} {c : Char} (h : c ∈ code raw) : c ∈ raw := by
  obtain ⟨comment, hcomment⟩ := exists_comment raw
  rw [hcomment]
  exact List.mem_append_left _ ((code_part raw).subset h)

theorem uncommented_code (raw : List Char) : Uncommented (code raw) :=
  (uncommented_beforeComment raw).part (code_part raw)

theorem trimmed_code (raw : List Char) : Trimmed (code raw) :=
  Text.trimmed_trim _

/-- A line without a comment and without blanks at its ends is all code. -/
theorem code_eq_self {raw : List Char} (hcomment : Uncommented raw) (htrimmed : Trimmed raw) :
    code raw = raw := by
  rw [code, hcomment.beforeComment_eq, htrimmed.trim_eq]

/-! ## §2 The grammar -/

/-- A text that can be a label: not empty, without blanks and colons. -/
def IsLabel (label : String) : Prop :=
  label ≠ "" ∧ ∀ c ∈ label.toList, isBlank c = false ∧ c ≠ ':'

/-- A text that can be an opcode: not empty, without blanks. -/
def IsWord (word : String) : Prop :=
  word ≠ "" ∧ ∀ c ∈ word.toList, isBlank c = false

/-- A word has no blanks, and so none at its ends. -/
theorem IsWord.solid {word : String} (h : IsWord word) : Text.Solid word.toList :=
  Text.solid_of_not_blank (mt String.toList_eq_nil_iff.1 h.1) h.2

theorem IsLabel.solid {label : String} (h : IsLabel label) : Text.Solid label.toList :=
  IsWord.solid ⟨h.1, fun c hc => (h.2 c hc).1⟩

/-- A text that can be an argument: without commas, and without blanks at its ends. -/
def IsArgument (argument : String) : Prop :=
  Trimmed argument.toList ∧ ',' ∉ argument.toList

/-- Arguments with a comma between any two of them, and blanks around the commas. -/
inductive Listed : List String → List Char → Prop where
  | single {a : String} : IsArgument a → Listed [a] a.toList
  | cons {a : String} {args : List String} {w v cs : List Char} :
      IsArgument a → Blanks w → Blanks v → Listed args cs →
      Listed (a :: args) (a.toList ++ (w ++ ',' :: (v ++ cs)))

/-- What stands behind an opcode: nothing, or a blank and arguments, of which not the only one is
empty. -/
def ArgumentsWritten (args : List String) (cs : List Char) : Prop :=
  (args = [] ∧ cs = []) ∨
    ∃ w list, w ≠ [] ∧ Blanks w ∧ cs = w ++ list ∧ Listed args list ∧ args ≠ [""]

/-- An opcode and what stands behind it, or nothing. -/
def OpcodeWritten (opcode : Option String) (args : List String) (cs : List Char) : Prop :=
  match opcode with
  | none => args = [] ∧ cs = []
  | some word => IsWord word ∧ ∃ rest, cs = word.toList ++ rest ∧ ArgumentsWritten args rest

/-- A mark, if there is one, in front of the rest. -/
def MarkWritten (mark : Bool) (rest cs : List Char) : Prop :=
  match mark with
  | false => cs = rest ∧ rest.head? ≠ some '>'
  | true => ∃ w, Blanks w ∧ cs = '>' :: (w ++ rest)

/-- A label and a colon in front of the rest, or no colon at all. -/
def LabelWritten (label : Option String) (rest cs : List Char) : Prop :=
  match label with
  | none => cs = rest ∧ ':' ∉ rest
  | some text => IsLabel text ∧ ∃ w, Blanks w ∧ cs = text.toList ++ ':' :: (w ++ rest)

/-- The fields are written so. -/
def Fields.Written (fields : Fields) (cs : List Char) : Prop :=
  ∃ behindLabel behindMark, LabelWritten fields.label behindLabel cs ∧
    MarkWritten fields.breakpoint behindMark behindLabel ∧
    OpcodeWritten fields.opcode fields.arguments behindMark

/-! ## §3 Arguments -/

/-- **Arguments that are written as a list are found by cutting at the commas.** -/
theorem Listed.map_trim_splitOn {args : List String} {cs : List Char} (h : Listed args cs) :
    (Text.splitOn ',' cs).map Text.trim = args.map String.toList := by
  induction h with
  | single ha => rw [Text.splitOn_of_not_mem ha.2, List.map_singleton, List.map_singleton, ha.1.trim_eq]
  | @cons a args w v cs ha hw hv _ ih =>
    -- The first comma is the one behind the first argument.
    have hfree : ',' ∉ a.toList ++ w := by
      rw [List.mem_append, not_or]
      exact ⟨ha.2, Text.not_mem_blanks hw rfl⟩
    have hfirst : Text.trim (a.toList ++ w) = a.toList := by
      rw [Text.trim_append_blanks _ hw, ha.1.trim_eq]
    rw [← List.append_assoc, Text.splitOn_append_cons hfree, List.map_cons, hfirst,
      Text.map_trim_splitOn_blanks_append rfl hv, ih, List.map_cons]

/-- A piece between commas is an argument, once it is trimmed. -/
theorem isArgument_trim {piece : List Char} (h : ',' ∉ piece) :
    IsArgument (String.ofList (Text.trim piece)) := by
  obtain ⟨w, v, -, -, hpiece⟩ := Text.exists_trim piece
  constructor
  · rw [String.toList_ofList]
    exact Text.trimmed_trim piece
  · rw [String.toList_ofList]
    intro hmem
    apply h
    rw [hpiece]
    exact List.mem_append_right _ (List.mem_append_left _ hmem)

/-- **What is found by cutting at the commas is written as a list.** -/
theorem listed_splitOn {cs : List Char} (h : ∀ c, cs.getLast? = some c → isBlank c = false) :
    Listed (((Text.splitOn ',' cs).map Text.trim).map String.ofList) (Text.trimStart cs) := by
  induction cs using Text.splitOn_induction ',' with
  | single piece hpiece =>
    -- There is no blank at the end, so dropping those in front is trimming.
    have htrim : Text.trim piece = Text.trimStart piece := (Text.trimmed_trimStart h).trimEnd_eq
    have hlist := Listed.single (isArgument_trim hpiece)
    rw [String.toList_ofList, htrim] at hlist
    rw [Text.splitOn_of_not_mem hpiece, List.map_singleton, List.map_singleton, htrim]
    exact hlist
  | cons piece rest hpiece ih =>
    have hlast : ∀ c, rest.getLast? = some c → isBlank c = false := by
      intro c hc
      exact h c (by simp [List.getLast?_append, List.getLast?_cons, hc])
    -- The blanks before the comma belong to the piece, and those behind it to the rest.
    obtain ⟨w, hw, hstart⟩ := Text.exists_trimStart rest
    obtain ⟨v, hv, hend⟩ := Text.exists_trimEnd (Text.trimStart piece)
    have hlist := Listed.cons (isArgument_trim hpiece) hv hw (ih hlast)
    rw [String.toList_ofList, ← hstart, ← List.append_assoc, Text.trim, ← hend] at hlist
    rw [Text.splitOn_append_cons hpiece, Text.trimStart_append_cons piece rfl]
    exact hlist

theorem splitArguments_eq (cs : List Char) :
    splitArguments cs =
      if Text.trim cs = [] then []
      else ((Text.splitOn ',' cs).map Text.trim).map String.ofList := by
  have hpieces : (Text.splitOn ',' (Text.trim cs)).map Text.trim =
      (Text.splitOn ',' cs).map Text.trim := by
    obtain ⟨w, v, hw, hv, hcs⟩ := Text.exists_trim cs
    conv => rhs; rw [hcs]
    rw [Text.map_trim_splitOn_blanks_append rfl hw, Text.map_trim_splitOn_append_blanks rfl hv]
  unfold splitArguments
  split
  · rename_i hempty
    rw [if_pos hempty]
  · rename_i hne
    rw [if_neg fun hempty => hne hempty, ← hpieces, List.map_map]
    rfl

/-- Only the one empty argument can be written as nothing but blanks. -/
theorem Listed.eq_of_trim_eq_nil {args : List String} {cs : List Char} (h : Listed args cs)
    (hempty : Text.trim cs = []) : args = [""] := by
  have hpieces := h.map_trim_splitOn
  have hfree : ',' ∉ cs := Text.not_mem_blanks (Text.blanks_of_trim_eq_nil hempty) rfl
  rw [Text.splitOn_of_not_mem hfree, List.map_singleton, hempty] at hpieces
  obtain ⟨a, rfl, ha⟩ := List.map_eq_singleton_iff.1 hpieces.symm
  rw [String.toList_eq_nil_iff.1 ha]

theorem splitArguments_of_written {args : List String} {cs : List Char}
    (h : ArgumentsWritten args cs) : splitArguments cs = args := by
  obtain ⟨rfl, rfl⟩ | ⟨w, list, -, hw, rfl, hlist, hargs⟩ := h
  · rfl
  · have hne : Text.trim (w ++ list) ≠ [] := by
      rw [Text.trim_blanks_append hw]
      exact fun hempty => hargs (hlist.eq_of_trim_eq_nil hempty)
    rw [splitArguments_eq, if_neg hne, Text.map_trim_splitOn_blanks_append rfl hw,
      hlist.map_trim_splitOn, List.map_map]
    simp [Function.comp_def]

theorem written_splitArguments {cs : List Char} (hhead : ∀ c, cs.head? = some c → isBlank c = true)
    (hlast : ∀ c, cs.getLast? = some c → isBlank c = false) :
    ArgumentsWritten (splitArguments cs) cs := by
  rw [splitArguments_eq]
  by_cases hempty : Text.trim cs = []
  · rw [if_pos hempty]
    -- Nothing but blanks, of which there is none at the end: nothing at all.
    have hblanks : Blanks cs := Text.blanks_of_trim_eq_nil hempty
    refine .inl ⟨rfl, List.getLast?_eq_none_iff.1 ?_⟩
    rw [Option.eq_none_iff_forall_ne_some]
    intro c hc
    have hblank := hblanks c (List.mem_of_getLast? hc)
    rw [hlast c hc] at hblank
    exact absurd hblank (by simp)
  · rw [if_neg hempty]
    obtain ⟨w, hw, hcs⟩ := Text.exists_trimStart cs
    have hlist := listed_splitOn hlast
    refine .inr ⟨w, Text.trimStart cs, ?_, hw, hcs, hlist, ?_⟩
    · rintro rfl
      rw [List.nil_append] at hcs
      -- Then the first character would be a blank and none.
      cases hfirst : cs.head? with
      | none => exact hempty (by rw [List.head?_eq_none_iff.1 hfirst, Text.trim_nil])
      | some c =>
        have hblank := hhead c hfirst
        rw [Text.head_trimStart cs c (hcs ▸ hfirst)] at hblank
        exact absurd hblank (by simp)
    · -- A single empty argument would leave nothing but blanks.
      intro hone
      rw [hone] at hlist
      generalize hrest : Text.trimStart cs = rest at hlist
      cases hlist with
      | single =>
        apply hempty
        rw [Text.trim, hrest]
        rfl
      | cons _ _ _ hnone => cases hnone

/-! ## §4 Opcode, mark and label -/

/-- A word is found in front of what starts with a blank. -/
theorem takeOpcode_of_written {opcode : Option String} {args : List String} {cs : List Char}
    (h : OpcodeWritten opcode args cs) : takeOpcode cs = (opcode, args) := by
  cases opcode with
  | none =>
    obtain ⟨rfl, rfl⟩ := h
    rfl
  | some word =>
    obtain ⟨⟨hne, hword⟩, rest, rfl, hargs⟩ := h
    have hall : ∀ c ∈ word.toList, (!isBlank c) = true := fun c hc => by simp [hword c hc]
    -- What stands behind the opcode is nothing or starts with a blank.
    have hrest : rest.takeWhile (!isBlank ·) = [] ∧ rest.dropWhile (!isBlank ·) = rest := by
      obtain ⟨-, rfl⟩ | ⟨w, list, hw, hblanks, rfl, -, -⟩ := hargs
      · exact ⟨rfl, rfl⟩
      · cases w with
        | nil => exact absurd rfl hw
        | cons c w => simp [hblanks c (List.mem_cons_self ..)]
    have hcons : word.toList ++ rest ≠ [] := by
      simp [hne]
    unfold takeOpcode
    split
    · exact absurd ‹_› hcons
    · rw [List.takeWhile_append_of_pos hall, List.dropWhile_append_of_pos hall, hrest.1, hrest.2,
        List.append_nil, String.ofList_toList, splitArguments_of_written hargs]

theorem written_takeOpcode {cs : List Char} (h : Trimmed cs) :
    OpcodeWritten (takeOpcode cs).1 (takeOpcode cs).2 cs := by
  cases cs with
  | nil => exact ⟨rfl, rfl⟩
  | cons c cs =>
    have hc : isBlank c = false := h.1 c rfl
    refine ⟨⟨?ne, ?word⟩, (c :: cs).dropWhile (!isBlank ·), ?split, written_splitArguments ?head ?last⟩
    case ne => simp [hc]
    case word =>
      intro d hd
      rw [String.toList_ofList] at hd
      simpa using List.all_eq_true.1 List.all_takeWhile d hd
    case split => rw [String.toList_ofList, List.takeWhile_append_dropWhile]
    case head =>
      intro d hd
      have hblank := List.head?_dropWhile_not (!isBlank ·) (c :: cs)
      rw [hd] at hblank
      simpa using hblank
    case last =>
      intro d hd
      apply h.2
      rw [← List.takeWhile_append_dropWhile (p := (!isBlank ·)) (l := c :: cs), List.getLast?_append, hd]
      rfl

/-- What is written with an opcode starts with no blank. -/
theorem OpcodeWritten.head {opcode : Option String} {args : List String} {cs : List Char}
    (h : OpcodeWritten opcode args cs) (c : Char) (hc : cs.head? = some c) : isBlank c = false := by
  cases opcode with
  | none =>
    obtain ⟨-, rfl⟩ := h
    exact absurd hc (by simp)
  | some word =>
    obtain ⟨⟨hne, hword⟩, rest, rfl, -⟩ := h
    obtain ⟨d, ds, hcons⟩ := List.exists_cons_of_ne_nil (mt String.toList_eq_nil_iff.1 hne)
    rw [hcons] at hc
    obtain rfl : d = c := by simpa using hc
    exact hword d (by simp [hcons])

theorem takeMark_of_written {mark : Bool} {rest cs : List Char} (h : MarkWritten mark rest cs)
    (hrest : ∀ c, rest.head? = some c → isBlank c = false) : takeMark cs = (mark, rest) := by
  cases mark with
  | false =>
    obtain ⟨rfl, hhead⟩ := h
    unfold takeMark
    split
    · exact absurd rfl hhead
    · rfl
  | true =>
    obtain ⟨w, hw, rfl⟩ := h
    rw [takeMark, Text.trimStart_append hw, Text.trimStart_eq_self hrest]

theorem written_takeMark (cs : List Char) : MarkWritten (takeMark cs).1 (takeMark cs).2 cs := by
  unfold takeMark
  split
  · rename_i rest
    obtain ⟨w, hw, hrest⟩ := Text.exists_trimStart rest
    exact ⟨w, hw, by rw [← hrest]⟩
  · rename_i hmark
    refine ⟨rfl, fun hhead => ?_⟩
    obtain ⟨rest, rfl⟩ := List.head?_eq_some_iff.1 hhead
    exact hmark rest rfl

theorem MarkWritten.head {mark : Bool} {rest cs : List Char} (h : MarkWritten mark rest cs)
    (hrest : ∀ c, rest.head? = some c → isBlank c = false) (c : Char) (hc : cs.head? = some c) :
    isBlank c = false := by
  cases mark with
  | false =>
    obtain ⟨rfl, -⟩ := h
    exact hrest c hc
  | true =>
    obtain ⟨w, -, rfl⟩ := h
    obtain rfl : '>' = c := by simpa using hc
    rfl

theorem takeLabel_of_not_mem {c : List Char} (h : ':' ∉ c) : takeLabel c = .ok (none, c) := by
  rw [takeLabel, (Text.cut?_eq_none_iff ':' c).2 h]

/-- What the first colon makes of a line. -/
theorem takeLabel_append {front : List Char} (h : ':' ∉ front) (rest : List Char) :
    takeLabel (front ++ ':' :: rest) =
      if front = [] then .error .emptyLabel
      else if front.any isBlank then .error (.labelWithBlank (String.ofList front))
      else .ok (some (String.ofList front), Text.trimStart rest) := by
  rw [takeLabel, (Text.cut?_eq_some_iff ':' _ front rest).2 ⟨h, rfl⟩]

theorem takeLabel_of_written {label : Option String} {rest cs : List Char}
    (h : LabelWritten label rest cs) (hrest : ∀ c, rest.head? = some c → isBlank c = false) :
    takeLabel cs = .ok (label, rest) := by
  cases label with
  | none =>
    obtain ⟨rfl, hcolon⟩ := h
    exact takeLabel_of_not_mem hcolon
  | some text =>
    obtain ⟨⟨hne, htext⟩, w, hw, rfl⟩ := h
    -- The colon behind the label is the first one.
    have hcolon : ':' ∉ text.toList := fun hmem => (htext ':' hmem).2 rfl
    have hblank : ¬ text.toList.any isBlank = true := by
      rw [List.any_eq_true]
      rintro ⟨c, hc, hblank⟩
      rw [(htext c hc).1] at hblank
      exact absurd hblank (by simp)
    rw [takeLabel_append hcolon, if_neg (mt String.toList_eq_nil_iff.1 hne), if_neg hblank,
      String.ofList_toList, Text.trimStart_append hw, Text.trimStart_eq_self hrest]

theorem written_of_takeLabel {label : Option String} {rest cs : List Char}
    (h : takeLabel cs = .ok (label, rest)) : LabelWritten label rest cs := by
  unfold takeLabel at h
  split at h
  · rename_i hcut
    obtain ⟨rfl, rfl⟩ := Prod.mk.inj (Except.ok.inj h)
    exact ⟨rfl, (Text.cut?_eq_none_iff ':' cs).1 hcut⟩
  · rename_i front behind hcut
    obtain ⟨hcolon, rfl⟩ := (Text.cut?_eq_some_iff ':' cs front behind).1 hcut
    by_cases hempty : front = []
    · rw [if_pos hempty] at h
      exact absurd h (by simp)
    · by_cases hblank : front.any isBlank = true
      · rw [if_neg hempty, if_pos hblank] at h
        exact absurd h (by simp)
      · rw [if_neg hempty, if_neg hblank] at h
        obtain ⟨rfl, rfl⟩ := Prod.mk.inj (Except.ok.inj h)
        obtain ⟨w, hw, hbehind⟩ := Text.exists_trimStart behind
        refine ⟨⟨by simpa using hempty, fun c hc => ?_⟩, w, hw, ?_⟩
        · rw [String.toList_ofList] at hc
          refine ⟨?_, fun heq => hcolon (heq ▸ hc)⟩
          have hnone : ∀ d ∈ front, isBlank d = false := by simpa using hblank
          exact hnone c hc
        · rw [String.toList_ofList, ← hbehind]

/-! ## §5 A whole line -/

/-- The rest behind a label is trimmed as the line is. -/
theorem LabelWritten.trimmed {label : Option String} {rest cs : List Char}
    (h : LabelWritten label rest cs) (hcs : Trimmed cs)
    (hrest : ∀ c, rest.head? = some c → isBlank c = false) : Trimmed rest := by
  cases label with
  | none =>
    obtain ⟨rfl, -⟩ := h
    exact hcs
  | some text =>
    obtain ⟨-, w, -, rfl⟩ := h
    refine ⟨hrest, fun c hc => hcs.2 c ?_⟩
    rw [List.getLast?_append, List.getLast?_cons, List.getLast?_append, hc]
    rfl

theorem MarkWritten.trimmed {mark : Bool} {rest cs : List Char} (h : MarkWritten mark rest cs)
    (hcs : Trimmed cs) (hrest : ∀ c, rest.head? = some c → isBlank c = false) : Trimmed rest := by
  cases mark with
  | false =>
    obtain ⟨rfl, -⟩ := h
    exact hcs
  | true =>
    obtain ⟨w, -, rfl⟩ := h
    refine ⟨hrest, fun c hc => hcs.2 c ?_⟩
    rw [List.getLast?_cons, List.getLast?_append, hc]
    rfl

/-- What is left of a trimmed line behind its label starts with no blank. -/
theorem head_of_takeLabel {label : Option String} {rest cs : List Char} (hcs : Trimmed cs)
    (h : takeLabel cs = .ok (label, rest)) (c : Char) (hc : rest.head? = some c) :
    isBlank c = false := by
  unfold takeLabel at h
  split at h
  · obtain ⟨-, rfl⟩ := Prod.mk.inj (Except.ok.inj h)
    exact hcs.1 c hc
  · split at h
    · exact absurd h (by simp)
    · split at h
      · exact absurd h (by simp)
      · obtain ⟨-, rfl⟩ := Prod.mk.inj (Except.ok.inj h)
        exact Text.head_trimStart _ c hc

/-- What is left of a trimmed line behind its mark starts with no blank. -/
theorem head_takeMark {cs : List Char} (hcs : Trimmed cs) (c : Char)
    (hc : (takeMark cs).2.head? = some c) : isBlank c = false := by
  unfold takeMark at hc
  split at hc
  · exact Text.head_trimStart _ c hc
  · exact hcs.1 c hc

theorem Fields.ofLine_eq (raw : List Char) :
    Fields.ofLine raw =
      match takeLabel (code raw) with
      | .error e => .error e
      | .ok (label, rest) =>
        .ok ⟨label, (takeMark rest).1, (takeOpcode (takeMark rest).2).1,
          (takeOpcode (takeMark rest).2).2⟩ := by
  rw [ofLine]
  cases takeLabel (code raw) <;> rfl

/-- **The fields of a line are those with which its code is written.** -/
theorem Fields.ofLine_eq_ok_iff (raw : List Char) (fields : Fields) :
    Fields.ofLine raw = .ok fields ↔ fields.Written (code raw) := by
  have hcode : Trimmed (code raw) := trimmed_code raw
  rw [ofLine_eq]
  constructor
  · intro h
    cases hlabel : takeLabel (code raw) with
    | error e =>
      rw [hlabel] at h
      exact absurd h (by simp)
    | ok pair =>
      obtain ⟨label, rest⟩ := pair
      rw [hlabel] at h
      obtain rfl := Except.ok.inj h
      -- From left to right; what is left stays trimmed each time.
      have hwritten := written_of_takeLabel hlabel
      have hrest : Trimmed rest := hwritten.trimmed hcode (head_of_takeLabel hcode hlabel)
      have hbehind := (written_takeMark rest).trimmed hrest (head_takeMark hrest)
      exact ⟨rest, (takeMark rest).2, hwritten, written_takeMark rest, written_takeOpcode hbehind⟩
  · rintro ⟨rest, behind, hlabel, hmark, hopcode⟩
    -- The blanks between the parts are dropped and nothing else, for no part starts with a blank.
    have hrest := hmark.head hopcode.head
    simp only [takeLabel_of_written hlabel hrest, takeMark_of_written hmark hopcode.head,
      takeOpcode_of_written hopcode]

/-- The arguments of a list are parts of it. -/
theorem Listed.isArgument {args : List String} {cs : List Char} (h : Listed args cs) {a : String}
    (ha : a ∈ args) : IsArgument a ∧ a.toList <:+: cs := by
  induction h with
  | single hb =>
    obtain rfl := List.mem_singleton.1 ha
    exact ⟨hb, List.infix_refl _⟩
  | @cons b args w v cs hb _ _ _ ih =>
    rcases List.mem_cons.1 ha with rfl | hmem
    · exact ⟨hb, (List.prefix_append _ _).isInfix⟩
    · obtain ⟨harg, hpart⟩ := ih hmem
      refine ⟨harg, hpart.trans ⟨b.toList ++ (w ++ ',' :: v), [], ?_⟩⟩
      simp

/-- The arguments behind an opcode are parts of the line. -/
theorem OpcodeWritten.isArgument {opcode : Option String} {args : List String} {cs : List Char}
    (h : OpcodeWritten opcode args cs) {a : String} (ha : a ∈ args) :
    IsArgument a ∧ a.toList <:+: cs := by
  cases opcode with
  | none =>
    obtain ⟨rfl, -⟩ := h
    exact absurd ha (by simp)
  | some word =>
    obtain ⟨-, rest, rfl, ⟨rfl, -⟩ | ⟨w, list, -, -, rfl, hlist, -⟩⟩ := h
    · exact absurd ha (by simp)
    · obtain ⟨harg, hpart⟩ := hlist.isArgument ha
      refine ⟨harg, hpart.trans ⟨word.toList ++ w, [], ?_⟩⟩
      simp

/-- **What an argument of a line is**: a part of it without commas and without blanks at the ends, and
without colons if the line has no label. -/
theorem Fields.Written.isArgument {fields : Fields} {cs : List Char} (h : fields.Written cs)
    {a : String} (ha : a ∈ fields.arguments) :
    IsArgument a ∧ a.toList <:+: cs ∧ (fields.label = none → ':' ∉ a.toList) := by
  obtain ⟨rest, behind, hlabel, hmark, hopcode⟩ := h
  obtain ⟨harg, hbehind⟩ := hopcode.isArgument ha
  have hrest : a.toList <:+: rest := by
    apply hbehind.trans
    cases hbreakpoint : fields.breakpoint with
    | false =>
      rw [hbreakpoint] at hmark
      obtain ⟨rfl, -⟩ := hmark
      exact List.infix_refl _
    | true =>
      rw [hbreakpoint] at hmark
      obtain ⟨w, -, rfl⟩ := hmark
      exact ⟨'>' :: w, [], by simp⟩
  cases hown : fields.label with
  | none =>
    rw [hown] at hlabel
    obtain ⟨rfl, hcolon⟩ := hlabel
    exact ⟨harg, hrest, fun _ hmem => hcolon (hrest.subset hmem)⟩
  | some text =>
    rw [hown] at hlabel
    obtain ⟨-, w, -, rfl⟩ := hlabel
    refine ⟨harg, hrest.trans ⟨text.toList ++ ':' :: w, [], ?_⟩, by simp⟩
    simp

/-- The label of a line is a part of it. -/
theorem Fields.Written.isLabel {fields : Fields} {cs : List Char} (h : fields.Written cs)
    {label : String} (hown : fields.label = some label) : IsLabel label ∧ label.toList <:+: cs := by
  obtain ⟨rest, behind, hlabel, -, -⟩ := h
  rw [hown] at hlabel
  obtain ⟨htext, w, -, rfl⟩ := hlabel
  exact ⟨htext, (List.prefix_append _ _).isInfix⟩

theorem Listed.uncommented {args : List String} {cs : List Char} (h : Listed args cs)
    (hargs : ∀ a ∈ args, Uncommented a.toList) : Uncommented cs := by
  induction h with
  | single => exact hargs _ (List.mem_singleton_self _)
  | @cons a args w v cs _ hw hv _ ih =>
    have hrest : Uncommented (v ++ cs) :=
      (ih fun b hb => hargs b (List.mem_cons_of_mem _ hb)).blanks_append hv
    have hcomma : Uncommented (',' :: (v ++ cs)) := hrest.cons (by decide)
    apply (hargs a (List.mem_cons_self ..)).append (hcomma.blanks_append hw)
    exact head_blanks_append hw (by simp)

/-- **No comment starts where two fields meet**: a line has one only if one of its fields has. -/
theorem Fields.Written.uncommented {fields : Fields} {cs : List Char} (h : fields.Written cs)
    (hlabel : ∀ label, fields.label = some label → Uncommented label.toList)
    (hopcode : ∀ word, fields.opcode = some word → Uncommented word.toList)
    (hargs : ∀ a ∈ fields.arguments, Uncommented a.toList) : Uncommented cs := by
  obtain ⟨label, mark, opcode, args⟩ := fields
  obtain ⟨rest, behind, hrest, hmark, hbehind⟩ := h
  have hcode : Uncommented behind := by
    cases opcode with
    | none =>
      obtain ⟨-, rfl⟩ := hbehind
      exact uncommented_nil
    | some word =>
      obtain ⟨-, tail, rfl, ⟨-, rfl⟩ | ⟨w, list, hne, hw, rfl, hlist, -⟩⟩ := hbehind
      · rw [List.append_nil]
        exact hopcode word rfl
      · -- The opcode and its arguments are kept apart by a blank.
        apply (hopcode word rfl).append ((hlist.uncommented hargs).blanks_append hw)
        cases w with
        | nil => exact absurd rfl hne
        | cons c w =>
          intro hhead
          obtain rfl : c = '/' := by simpa using hhead
          exact Text.not_mem_blanks hw rfl (List.mem_cons_self ..)
  have hmarked : Uncommented rest := by
    cases mark with
    | false =>
      obtain ⟨rfl, -⟩ := hmark
      exact hcode
    | true =>
      obtain ⟨w, hw, rfl⟩ := hmark
      exact (hcode.blanks_append hw).cons (by decide)
  cases label with
  | none =>
    obtain ⟨rfl, -⟩ := hrest
    exact hmarked
  | some text =>
    obtain ⟨-, w, hw, rfl⟩ := hrest
    have hcolon : Uncommented (':' :: (w ++ rest)) := (hmarked.blanks_append hw).cons (by decide)
    exact (hlabel text rfl).append hcolon (by simp)

end Dlx.Assembly
