import Dlx.Text.Lines

/-!
# Cutting text

The laws of trimming and cutting, which say what the pieces are without looking at how they are found:
blanks at the ends do not matter, a cut at a separator is undone by putting the separator back, and the
lines of a text are what stands between its line feeds.

- **§1** blanks at the ends (`Blanks`, `Trimmed`)
- **§2** the first separator
- **§3** every separator
- **§4** lines
- **§5** joining texts that are not blank at their ends (`Solid`)
-/

namespace Dlx.Text

/-! ## §1 Blanks at the ends -/

/-- Nothing but blanks. -/
def Blanks (cs : List Char) : Prop :=
  ∀ c ∈ cs, isBlank c = true

/-- No blank at either end. -/
def Trimmed (cs : List Char) : Prop :=
  (∀ c, cs.head? = some c → isBlank c = false) ∧ ∀ c, cs.getLast? = some c → isBlank c = false

-- Named, since characters can also be enumerated.
instance (cs : List Char) : Decidable (Blanks cs) :=
  List.decidableBAll (isBlank · = true) cs

theorem blanks_nil : Blanks [] := by
  intro c hc
  exact absurd hc (by simp)

theorem blanks_space : Blanks [' '] := by
  intro c hc
  rw [List.mem_singleton.1 hc]
  rfl

theorem trimmed_nil : Trimmed [] := by
  constructor <;> simp

theorem Blanks.reverse {cs : List Char} (h : Blanks cs) : Blanks cs.reverse := by
  intro c hc
  exact h c (List.mem_reverse.1 hc)

theorem Trimmed.reverse {cs : List Char} (h : Trimmed cs) : Trimmed cs.reverse := by
  constructor
  · intro c hc
    exact h.2 c (by rwa [List.head?_reverse] at hc)
  · intro c hc
    exact h.1 c (by rwa [List.getLast?_reverse] at hc)

theorem trimEnd_eq (cs : List Char) : trimEnd cs = (trimStart cs.reverse).reverse := rfl

/-- Blanks in front do not matter. -/
theorem trimStart_append {w : List Char} (h : Blanks w) (cs : List Char) :
    trimStart (w ++ cs) = trimStart cs :=
  List.dropWhile_append_of_pos h

/-- Blanks at the end do not matter. -/
theorem trimEnd_append (cs : List Char) {w : List Char} (h : Blanks w) :
    trimEnd (cs ++ w) = trimEnd cs := by
  rw [trimEnd_eq, List.reverse_append, trimStart_append h.reverse, trimEnd_eq]

/-- Without a blank in front nothing is dropped there. -/
theorem trimStart_eq_self {cs : List Char} (h : ∀ c, cs.head? = some c → isBlank c = false) :
    trimStart cs = cs := by
  cases cs with
  | nil => rfl
  | cons c cs => exact List.dropWhile_cons_of_neg (by simp [h c rfl])

theorem trimEnd_eq_self {cs : List Char} (h : ∀ c, cs.getLast? = some c → isBlank c = false) :
    trimEnd cs = cs := by
  rw [trimEnd_eq, trimStart_eq_self, List.reverse_reverse]
  intro c hc
  exact h c (by rwa [List.head?_reverse] at hc)

/-- What is dropped in front is blank. -/
theorem exists_trimStart (cs : List Char) : ∃ w, Blanks w ∧ cs = w ++ trimStart cs := by
  refine ⟨cs.takeWhile isBlank, ?_, List.takeWhile_append_dropWhile.symm⟩
  intro c hc
  exact List.all_eq_true.1 List.all_takeWhile c hc

theorem exists_trimEnd (cs : List Char) : ∃ w, Blanks w ∧ cs = trimEnd cs ++ w := by
  obtain ⟨w, hw, hcs⟩ := exists_trimStart cs.reverse
  refine ⟨w.reverse, hw.reverse, ?_⟩
  rw [trimEnd_eq, ← List.reverse_append, ← hcs, List.reverse_reverse]

/-- In front of a character that is not blank, the blanks end there at the latest. -/
theorem trimStart_append_cons (cs : List Char) {c : Char} (hc : isBlank c = false) (rest : List Char) :
    trimStart (cs ++ c :: rest) = trimStart cs ++ c :: rest := by
  obtain ⟨w, hw, hcs⟩ := exists_trimStart cs
  have hhead := head_trimStart cs
  generalize trimStart cs = ds at hcs hhead
  rw [hcs, List.append_assoc, trimStart_append hw]
  apply trimStart_eq_self
  cases ds with
  | nil => simp [hc]
  | cons d ds => simpa using hhead

/-- Without blanks at the end it is enough to drop those in front. -/
theorem trimmed_trimStart {cs : List Char} (h : ∀ c, cs.getLast? = some c → isBlank c = false) :
    Trimmed (trimStart cs) := by
  refine ⟨head_trimStart cs, fun c hc => h c ?_⟩
  obtain ⟨w, -, hcs⟩ := exists_trimStart cs
  rw [hcs, List.getLast?_append, hc]
  rfl

theorem Trimmed.trimEnd_eq {cs : List Char} (h : Trimmed cs) : trimEnd cs = cs :=
  trimEnd_eq_self h.2

/-- **What is dropped at the ends is blank.** -/
theorem exists_trim (cs : List Char) :
    ∃ w v, Blanks w ∧ Blanks v ∧ cs = w ++ (trim cs ++ v) := by
  obtain ⟨w, hw, hstart⟩ := exists_trimStart cs
  obtain ⟨v, hv, hend⟩ := exists_trimEnd (trimStart cs)
  exact ⟨w, v, hw, hv, by rw [trim, ← hend, ← hstart]⟩

/-- What is left has no blank at either end. -/
theorem trimmed_trim (cs : List Char) : Trimmed (trim cs) := by
  constructor
  · intro c hc
    obtain ⟨v, -, hend⟩ := exists_trimEnd (trimStart cs)
    -- The first character that is left is the first one behind the blanks in front.
    have hhead : (trimStart cs).head? = some c := by
      rw [hend, List.head?_append, ← trim, hc]
      rfl
    exact head_trimStart cs c hhead
  · intro c hc
    rw [trim, trimEnd_eq, List.getLast?_reverse] at hc
    exact head_trimStart _ c hc

theorem Trimmed.trim_eq {cs : List Char} (h : Trimmed cs) : trim cs = cs := by
  rw [trim, trimStart_eq_self h.1, trimEnd_eq_self h.2]

theorem trim_blanks_append {w : List Char} (h : Blanks w) (cs : List Char) :
    trim (w ++ cs) = trim cs := by
  rw [trim, trimStart_append h, trim]

/-- Trimming both ends does not depend on which end comes first. -/
theorem trim_append_blanks (cs : List Char) {w : List Char} (h : Blanks w) :
    trim (cs ++ w) = trim cs := by
  -- Without the blanks in front the text is empty, or its first character keeps them from being joined.
  obtain ⟨v, hv, hcs⟩ := exists_trimStart cs
  rw [hcs, List.append_assoc, trim_blanks_append hv, trim_blanks_append hv]
  have hhead := head_trimStart cs
  generalize trimStart cs = ds at hhead
  cases ds with
  | nil =>
    have hempty : trimStart w = [] := by
      simpa using trimStart_append h []
    simp [trim, hempty]
  | cons d ds =>
    have hd : isBlank d = false := hhead d rfl
    rw [trim, trim, List.cons_append, trimStart_eq_self (by simp [hd]), trimStart_eq_self (by simp [hd]),
      ← List.cons_append, trimEnd_append _ h]

/-- **A text is trimmed to another one exactly if there are only blanks around that one.** -/
theorem trim_eq_iff {core : List Char} (h : Trimmed core) (cs : List Char) :
    trim cs = core ↔ ∃ w v, Blanks w ∧ Blanks v ∧ cs = w ++ (core ++ v) := by
  constructor
  · rintro rfl
    exact exists_trim cs
  · rintro ⟨w, v, hw, hv, rfl⟩
    rw [trim_blanks_append hw, trim_append_blanks core hv, h.trim_eq]

theorem Blanks.trim_eq {cs : List Char} (h : Blanks cs) : trim cs = [] := by
  have hnil := trim_blanks_append h []
  rwa [List.append_nil, trim_nil] at hnil

/-- A text of which nothing is left is blank. -/
theorem blanks_of_trim_eq_nil {cs : List Char} (h : trim cs = []) : Blanks cs := by
  obtain ⟨w, v, hw, hv, hcs⟩ := exists_trim cs
  rw [h, List.nil_append] at hcs
  intro c hc
  rw [hcs] at hc
  exact (List.mem_append.1 hc).elim (hw c) (hv c)

/-! ## §2 The first separator -/

/-- **A cut at the first separator** is undone by putting the separator back. -/
theorem cut?_eq_some_iff (separator : Char) (cs front rest : List Char) :
    cut? separator cs = some (front, rest) ↔
      separator ∉ front ∧ cs = front ++ separator :: rest := by
  constructor
  · intro h
    unfold cut? at h
    split at h
    · exact absurd h (by simp)
    · -- What is not taken starts with the separator.
      rename_i c tail hdrop
      obtain ⟨rfl, rfl⟩ := Prod.mk.inj (Option.some.inj h)
      have hhead := List.head?_dropWhile_not (· != separator) cs
      rw [hdrop] at hhead
      obtain rfl : c = separator := by simpa using hhead
      constructor
      · intro hmem
        have hne := List.all_eq_true.1 List.all_takeWhile _ hmem
        exact absurd hne (by simp)
      · rw [← hdrop, List.takeWhile_append_dropWhile]
  · rintro ⟨hnot, rfl⟩
    have hall : ∀ c ∈ front, (c != separator) = true := by
      intro c hc
      rw [bne_iff_ne]
      rintro rfl
      exact hnot hc
    simp [cut?, List.dropWhile_append_of_pos hall, List.takeWhile_append_of_pos hall]

theorem cut?_eq_none_iff (separator : Char) (cs : List Char) :
    cut? separator cs = none ↔ separator ∉ cs := by
  constructor
  · intro h hmem
    -- Where the separator occurs first, there would have been a cut.
    obtain ⟨front, rest, hcs, hnot⟩ := List.eq_append_cons_of_mem hmem
    rw [(cut?_eq_some_iff separator cs front rest).2 ⟨hnot, hcs⟩] at h
    exact absurd h (by simp)
  · intro hnot
    cases h : cut? separator cs with
    | none => rfl
    | some cut =>
      obtain ⟨-, hcs⟩ := (cut?_eq_some_iff separator cs cut.1 cut.2).1 h
      exact absurd (by simp [hcs]) hnot

/-! ## §3 Every separator -/

/-- A text in which the separator does not occur is one piece. -/
theorem splitOn_of_not_mem {separator : Char} {cs : List Char} (h : separator ∉ cs) :
    splitOn separator cs = [cs] := by
  induction cs with
  | nil => rfl
  | cons c cs ih =>
    have hne : c ≠ separator := fun heq => h (heq ▸ List.mem_cons_self ..)
    have hrest : separator ∉ cs := fun hmem => h (List.mem_cons_of_mem _ hmem)
    rw [splitOn_cons, consPiece, if_neg hne, ih hrest]
    rfl

/-- The first piece ends at the first separator. -/
theorem splitOn_append_cons {separator : Char} {piece : List Char} (h : separator ∉ piece)
    (rest : List Char) :
    splitOn separator (piece ++ separator :: rest) = piece :: splitOn separator rest := by
  induction piece with
  | nil => rw [List.nil_append, splitOn_cons, consPiece, if_pos rfl]
  | cons c piece ih =>
    have hne : c ≠ separator := fun heq => h (heq ▸ List.mem_cons_self ..)
    have hrest : separator ∉ piece := fun hmem => h (List.mem_cons_of_mem _ hmem)
    rw [List.cons_append, splitOn_cons, consPiece, if_neg hne, ih hrest]
    rfl

/-- A text is one piece without the separator, or such a piece, the separator and another text. -/
theorem splitOn_induction (separator : Char) {motive : List Char → Prop}
    (single : ∀ piece, separator ∉ piece → motive piece)
    (cons : ∀ piece rest, separator ∉ piece → motive rest → motive (piece ++ separator :: rest))
    (cs : List Char) : motive cs := by
  by_cases hmem : separator ∈ cs
  · obtain ⟨piece, rest, hcs, hnot⟩ := List.eq_append_cons_of_mem hmem
    have hshorter : rest.length < cs.length := by
      rw [hcs, List.length_append, List.length_cons]
      omega
    rw [hcs]
    exact cons piece rest hnot (splitOn_induction separator single cons rest)
  · exact single cs hmem
termination_by cs.length

theorem not_mem_blanks {w : List Char} (h : Blanks w) {c : Char} (hc : isBlank c = false) :
    c ∉ w := by
  intro hmem
  rw [h c hmem] at hc
  exact absurd hc (by simp)

/-- Blanks in front of a text do not change its pieces but for their ends. -/
theorem map_trim_splitOn_blanks_append {separator : Char} (hseparator : isBlank separator = false)
    {w : List Char} (hw : Blanks w) (cs : List Char) :
    (splitOn separator (w ++ cs)).map trim = (splitOn separator cs).map trim := by
  have hnot : separator ∉ w := not_mem_blanks hw hseparator
  induction cs using splitOn_induction separator with
  | single cs hcs =>
    have hboth : separator ∉ w ++ cs := fun hmem => (List.mem_append.1 hmem).elim hnot hcs
    rw [splitOn_of_not_mem hboth, splitOn_of_not_mem hcs, List.map_singleton, List.map_singleton,
      trim_blanks_append hw]
  | cons piece rest hpiece _ =>
    -- Only the first piece has the blanks in front of it.
    have hboth : separator ∉ w ++ piece := fun hmem => (List.mem_append.1 hmem).elim hnot hpiece
    rw [← List.append_assoc, splitOn_append_cons hboth, splitOn_append_cons hpiece, List.map_cons,
      List.map_cons, trim_blanks_append hw]

/-- Blanks behind a text do not change its pieces but for their ends. -/
theorem map_trim_splitOn_append_blanks {separator : Char} (hseparator : isBlank separator = false)
    {w : List Char} (hw : Blanks w) (cs : List Char) :
    (splitOn separator (cs ++ w)).map trim = (splitOn separator cs).map trim := by
  have hnot : separator ∉ w := not_mem_blanks hw hseparator
  induction cs using splitOn_induction separator with
  | single cs hcs =>
    have hboth : separator ∉ cs ++ w := fun hmem => (List.mem_append.1 hmem).elim hcs hnot
    rw [splitOn_of_not_mem hboth, splitOn_of_not_mem hcs, List.map_singleton, List.map_singleton,
      trim_append_blanks _ hw]
  | cons piece rest hpiece ih =>
    -- The blanks stand behind the rest.
    rw [List.append_assoc, List.cons_append, splitOn_append_cons hpiece, splitOn_append_cons hpiece,
      List.map_cons, List.map_cons, ih]

/-! ## §4 Lines -/

theorem dropReturn_eq_self {l : List Char} (h : l.getLast? ≠ some '\r') : dropReturn l = l :=
  if_neg h

theorem dropReturn_concat (l : List Char) : dropReturn (l ++ ['\r']) = l := by
  simp [dropReturn]

/-- Nothing but a carriage return is dropped at the end. -/
theorem eq_dropReturn_or (l : List Char) : l = dropReturn l ∨ l = dropReturn l ++ ['\r'] := by
  by_cases h : l.getLast? = some '\r'
  · obtain ⟨front, rfl⟩ := List.getLast?_eq_some_iff.1 h
    exact .inr (congrArg (· ++ ['\r']) (dropReturn_concat front).symm)
  · exact .inl (dropReturn_eq_self h).symm

/-- A text without a line feed is one line, or none if it is empty. -/
theorem lines_of_not_mem {l : List Char} (h : '\n' ∉ l) : lines l = if l = [] then [] else [l] := by
  simp [lines, splitOn_of_not_mem h]

/-- The first line ends at the first line feed. -/
theorem lines_append_feed {l : List Char} (h : '\n' ∉ l) (cs : List Char) :
    lines (l ++ '\n' :: cs) = dropReturn l :: lines cs := by
  obtain ⟨piece, pieces, hpieces⟩ := List.exists_cons_of_ne_nil (splitOn_ne_nil '\n' cs)
  simp [lines, splitOn_append_cons h, hpieces]

/-- A text with a line feed behind every line. -/
def terminated (ls : List (List Char)) : List Char :=
  ls.flatMap (· ++ ['\n'])

/-- **Lines that are written one below the other are read back**, if none contains a line feed or ends in
a carriage return. -/
theorem lines_terminated {ls : List (List Char)} (hfeed : ∀ l ∈ ls, '\n' ∉ l)
    (hreturn : ∀ l ∈ ls, l.getLast? ≠ some '\r') : lines (terminated ls) = ls := by
  induction ls with
  | nil => rfl
  | cons l ls ih =>
    obtain ⟨hl, hls⟩ := List.forall_mem_cons.1 hfeed
    obtain ⟨hlast, hlasts⟩ := List.forall_mem_cons.1 hreturn
    have hcons : terminated (l :: ls) = l ++ '\n' :: terminated ls := by
      simp [terminated]
    rw [hcons, lines_append_feed hl, dropReturn_eq_self hlast, ih hls hlasts]

/-- No line contains a line feed. -/
theorem not_mem_of_mem_lines {l cs : List Char} (h : l ∈ lines cs) : '\n' ∉ l := by
  induction cs using splitOn_induction '\n' with
  | single piece hpiece =>
    rw [lines_of_not_mem hpiece] at h
    split at h
    · exact absurd h (by simp)
    · rwa [List.mem_singleton.1 h]
  | cons piece rest hpiece ih =>
    rw [lines_append_feed hpiece] at h
    rcases List.mem_cons.1 h with rfl | h
    · -- A line is a piece, perhaps without its carriage return.
      rcases eq_dropReturn_or piece with heq | heq
      · rwa [← heq]
      · rw [heq] at hpiece
        exact fun hmem => hpiece (List.mem_append_left _ hmem)
    · exact ih h

/-! ## §5 Joining -/

/-- Not empty, and no blank at either end. -/
def Solid (cs : List Char) : Prop :=
  cs ≠ [] ∧ Trimmed cs

theorem solid_of_not_blank {cs : List Char} (hne : cs ≠ []) (h : ∀ c ∈ cs, isBlank c = false) :
    Solid cs :=
  ⟨hne, fun c hc => h c (List.mem_of_head? hc), fun c hc => h c (List.mem_of_getLast? hc)⟩

/-- Two solid texts stay solid with anything between them. -/
theorem Solid.append {cs ds : List Char} (hcs : Solid cs) (hds : Solid ds) (middle : List Char) :
    Solid (cs ++ (middle ++ ds)) := by
  obtain ⟨c, cs', rfl⟩ := List.exists_cons_of_ne_nil hcs.1
  refine ⟨by simp, fun d hd => hcs.2.1 d hd, fun d hd => hds.2.2 d ?_⟩
  have hlast := List.getLast?_eq_some_getLast hds.1
  rw [List.getLast?_append, List.getLast?_append, hlast] at hd
  rw [hlast]
  exact hd

/-- Solid parts are joined to a solid text. -/
theorem solid_intercalate (separator : String) {parts : List String} (hne : parts ≠ [])
    (h : ∀ part ∈ parts, Solid part.toList) : Solid (separator.intercalate parts).toList := by
  induction parts with
  | nil => exact absurd rfl hne
  | cons part parts ih =>
    have hpart : Solid part.toList := h part (List.mem_cons_self ..)
    by_cases hlast : parts = []
    · rw [hlast, String.intercalate_singleton]
      exact hpart
    · have hrest := ih hlast fun other hother => h other (List.mem_cons_of_mem _ hother)
      rw [String.intercalate_cons_of_ne_nil hlast, String.toList_append, String.toList_append,
        List.append_assoc]
      exact hpart.append hrest _

/-- A character of a joined text comes from the separator or from one of the parts. -/
theorem mem_intercalate {separator : String} {parts : List String} {c : Char}
    (h : c ∈ (separator.intercalate parts).toList) :
    c ∈ separator.toList ∨ ∃ part ∈ parts, c ∈ part.toList := by
  induction parts with
  | nil => exact absurd h (by simp)
  | cons part parts ih =>
    by_cases hlast : parts = []
    · rw [hlast, String.intercalate_singleton] at h
      exact .inr ⟨part, List.mem_cons_self .., h⟩
    · rw [String.intercalate_cons_of_ne_nil hlast, String.toList_append, String.toList_append,
        List.mem_append, List.mem_append] at h
      rcases h with (hfirst | hseparator) | hrest
      · exact .inr ⟨part, List.mem_cons_self .., hfirst⟩
      · exact .inl hseparator
      · rcases ih hrest with hseparator | ⟨other, hother, hmem⟩
        · exact .inl hseparator
        · exact .inr ⟨other, List.mem_cons_of_mem _ hother, hmem⟩

/-- Behind the first of several parts that are joined by a space there are blanks and the others. -/
theorem exists_intercalate_cons (part : String) (parts : List String) :
    ∃ w, Blanks w ∧
      (" ".intercalate (part :: parts)).toList = part.toList ++ (w ++ (" ".intercalate parts).toList) := by
  by_cases hlast : parts = []
  · refine ⟨[], blanks_nil, ?_⟩
    simp [hlast]
  · refine ⟨[' '], blanks_space, ?_⟩
    rw [String.intercalate_cons_of_ne_nil hlast]
    simp

end Dlx.Text
