import Dlx.Assembly.Source
import Dlx.Proofs.Assembly.Grammar

/-!
# Layout

The layout of a source text does not matter: blanks around its lines, comments behind them, and the way
in which lines end. All that is read of a line is its code, and none of these changes it, so the text is
assembled to the same program or refused for the same reason.

- **§1** lines with blanks and comments around them (`Dressed`)
- **§2** texts made of such lines (`Relaid`)
- **§3** what is assembled
-/

namespace Dlx.Assembly

open Text (Blanks)

/-! ## §1 Lines -/

/-- A line with blanks in front of it and behind it, and perhaps with a comment behind these. There must
be a blank before the comment, since the line may end in a slash. -/
inductive Dressed (raw : List Char) : List Char → Prop where
  | blanks {w v : List Char} : Blanks w → Blanks v → Dressed raw (w ++ (raw ++ v))
  | comment {w v comment : List Char} :
      Blanks w → Blanks v → v ≠ [] → Dressed raw (w ++ (raw ++ (v ++ '/' :: '/' :: comment)))

theorem Dressed.refl (raw : List Char) : Dressed raw raw := by
  have hdressed : Dressed raw ([] ++ (raw ++ [])) := .blanks Text.blanks_nil Text.blanks_nil
  simpa using hdressed

/-- A carriage return is a blank. -/
theorem dressed_dropReturn (l : List Char) : Dressed (Text.dropReturn l) l := by
  rcases Text.eq_dropReturn_or l with heq | heq
  · rw [← heq]
    exact .refl l
  · have hreturn : Blanks ['\r'] := by decide
    have hdressed : Dressed (Text.dropReturn l) (Text.dropReturn l ++ ['\r']) :=
      .blanks (w := []) Text.blanks_nil hreturn
    rwa [← heq] at hdressed

/-- In front of the line there are only blanks. -/
theorem Dressed.exists_front {raw other : List Char} (h : Dressed raw other) :
    ∃ w rest, Blanks w ∧ other = w ++ (raw ++ rest) := by
  cases h with
  | blanks hw hv => exact ⟨_, _, hw, rfl⟩
  | comment hw hv hne => exact ⟨_, _, hw, rfl⟩

/-- **Dressing a line puts blanks around what stands in front of its comment**, and nothing else. -/
theorem Dressed.inFrontOfComment {raw other front : List Char} (h : Dressed raw other)
    (hfront : InFrontOfComment raw front) :
    ∃ w v, Blanks w ∧ Blanks v ∧ InFrontOfComment other (w ++ (front ++ v)) := by
  rcases hfront with ⟨hraw, rfl⟩ | ⟨comment, rfl, hslash⟩
  · -- The line has no comment of its own.
    cases h with
    | @blanks w v hw hv =>
      exact ⟨w, v, hw, hv, .inl ⟨(hraw.append_blanks hv).blanks_append hw, rfl⟩⟩
    | @comment w v comment hw hv hne =>
      refine ⟨w, v, hw, hv, .inr ⟨comment, by simp, ?_⟩⟩
      simpa using (hraw.append_blanks_slash hv hne).blanks_append hw
  · -- What is put behind the line is put behind its comment.
    obtain ⟨w, rest, hw, rfl⟩ := h.exists_front
    refine ⟨w, [], hw, Text.blanks_nil, .inr ⟨comment ++ rest, by simp, ?_⟩⟩
    simpa using hslash.blanks_append hw

/-- **Dressing a line does not change its code.** -/
theorem Dressed.code_eq {raw other : List Char} (h : Dressed raw other) : code other = code raw := by
  obtain ⟨w, v, hw, hv, hother⟩ := h.inFrontOfComment (inFrontOfComment_beforeComment raw)
  rw [code, ← (inFrontOfComment_iff other _).1 hother, Text.trim_blanks_append hw,
    Text.trim_append_blanks _ hv, code]

/-! ## §2 Texts -/

/-- The two ways in which a line ends. -/
def IsLineEnd (e : List Char) : Prop :=
  e = ['\n'] ∨ e = ['\r', '\n']

/-- A text whose lines are the given ones, each of them dressed and with an end of its own. The last one
may lack its end, unless nothing of it would be left. -/
inductive Relaid : List (List Char) → List Char → Prop where
  | nil : Relaid [] []
  | last {raw l : List Char} : Dressed raw l → '\n' ∉ l → l ≠ [] → Relaid [raw] l
  | cons {raw l e cs : List Char} {raws : List (List Char)} :
      Dressed raw l → '\n' ∉ l → IsLineEnd e → Relaid raws cs →
      Relaid (raw :: raws) (l ++ (e ++ cs))

/-- Every text is one layout of its own lines. -/
theorem relaid_lines (cs : List Char) : Relaid (Text.lines cs) cs := by
  induction cs using Text.splitOn_induction '\n' with
  | single piece hpiece =>
    rw [Text.lines_of_not_mem hpiece]
    split
    · rename_i hempty
      rw [hempty]
      exact .nil
    · rename_i hne
      exact .last (.refl piece) hpiece hne
  | cons piece rest hpiece ih =>
    rw [Text.lines_append_feed hpiece]
    exact .cons (dressed_dropReturn piece) hpiece (.inl rfl) ih

/-- **The lines of a text have the code of the lines from which it is laid out.** -/
theorem Relaid.map_code {raws : List (List Char)} {cs : List Char} (h : Relaid raws cs) :
    (Text.lines cs).map code = raws.map code := by
  induction h with
  | nil => rfl
  | last hdressed hfeed hne =>
    rw [Text.lines_of_not_mem hfeed, if_neg hne, List.map_singleton, List.map_singleton,
      hdressed.code_eq]
  | @cons raw l e cs raws hdressed hfeed hend _ ih =>
    have hlines : ∃ k, Text.lines (l ++ (e ++ cs)) = k :: Text.lines cs ∧ code k = code l := by
      rcases hend with rfl | rfl
      · exact ⟨_, Text.lines_append_feed hfeed cs, (dressed_dropReturn l).code_eq.symm⟩
      · -- The carriage return is dropped with the end.
        have hfeed' : '\n' ∉ l ++ ['\r'] := by simpa using hfeed
        refine ⟨l, ?_, rfl⟩
        simpa [Text.dropReturn_concat] using Text.lines_append_feed hfeed' cs
    obtain ⟨k, hk, hcode⟩ := hlines
    rw [hk, List.map_cons, List.map_cons, hcode, hdressed.code_eq, ih]

/-! ## §3 Assembling -/

/-- Nothing of a line is read but its code. -/
theorem addSource_congr (p : Program) {raw other : List Char} (h : code raw = code other) :
    addSource p raw = addSource p other := by
  rw [addSource, addSource, Fields.ofLine_eq, Fields.ofLine_eq, h]

theorem addSources_congr (p : Program) {raws others : List (List Char)}
    (h : raws.map code = others.map code) : addSources p raws = addSources p others := by
  induction raws generalizing p others with
  | nil =>
    obtain rfl := List.map_eq_nil_iff.1 h.symm
    rfl
  | cons raw raws ih =>
    obtain ⟨other, others, rfl, hcode, hrest⟩ := List.map_eq_cons_iff.1 h.symm
    rw [addSources, addSources, addSource_congr p hcode.symm]
    split
    · exact ih _ hrest.symm
    · rfl

/-- **Layout does not matter.** Put blanks around the lines of a source text and comments behind them,
set off by a blank, and end each line in either way: the new text is assembled to the same program, or
refused in the same line, for the same reason and with the same words. -/
theorem assemble_of_relaid {source other : String}
    (h : Relaid (Text.lines source.toList) other.toList) : assemble other = assemble source :=
  addSources_congr .empty h.map_code

/-- A source text whose last line is refused. -/
def narrow : String :=
  "A: J A // a:b\nHALT\nB C: HALT"

/-- The same text in another layout. -/
def wide : String :=
  "\tA: J A // a:b //\r\nHALT //c\n B C: HALT\r\n"

theorem assemble_of_relaid_wide :
    Relaid (Text.lines narrow.toList) wide.toList ∧
    assemble narrow = .error ⟨2, .labelWithBlank "B C"⟩ ∧ assemble wide = assemble narrow := by
  have hnarrow : Text.lines narrow.toList =
      ["A: J A // a:b".toList, "HALT".toList, "B C: HALT".toList] := by decide
  have hwide : wide.toList =
      (['\t'] ++ ("A: J A // a:b".toList ++ ([' '] ++ '/' :: '/' :: []))) ++ (['\r', '\n'] ++
        (([] ++ ("HALT".toList ++ ([' '] ++ '/' :: '/' :: ['c']))) ++ (['\n'] ++
          (([' '] ++ ("B C: HALT".toList ++ [])) ++ (['\r', '\n'] ++ []))))) := by decide
  have hrelaid : Relaid (Text.lines narrow.toList) wide.toList := by
    rw [hnarrow, hwide]
    refine .cons (.comment ?_ ?_ ?_) ?_ (.inr rfl)
      (.cons (.comment ?_ ?_ ?_) ?_ (.inl rfl) (.cons (.blanks ?_ ?_) ?_ (.inr rfl) .nil))
    all_goals decide
  exact ⟨hrelaid, rfl, assemble_of_relaid hrelaid⟩

end Dlx.Assembly
