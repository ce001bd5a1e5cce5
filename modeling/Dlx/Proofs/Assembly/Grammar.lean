import Dlx.Proofs.Assembly.Fields

/-!
# Which lines have fields

A line has fields unless its label is refused, and the label is refused for one of two reasons, each of
which can be seen in the code of the line. What the code of a line is, and with which fields it is
written, is said without searching and trimming.

- **§1** the code of a line (`IsCode`)
- **§2** labels that are refused (`BlankLabel`)
- **§3** every line
-/

namespace Dlx.Assembly

open Text (Blanks Trimmed isBlank)

/-! ## §1 The code of a line -/

/-- What stands in front of the first two slashes in a row, or the whole text if there are none. No two
slashes in a row begin before these, not even with the first one of them. -/
def InFrontOfComment (raw front : List Char) : Prop :=
  (Uncommented raw ∧ front = raw) ∨
    ∃ comment, raw = front ++ '/' :: '/' :: comment ∧ Uncommented (front ++ ['/'])

/-- The code of a line: what stands in front of its comment, without the blanks around it. -/
def IsCode (raw c : List Char) : Prop :=
  ∃ w v, Blanks w ∧ Blanks v ∧ Trimmed c ∧ InFrontOfComment raw (w ++ (c ++ v))

/-- Two slashes in a row start a comment if none has started before. -/
theorem beforeComment_append_slashes {front : List Char} (h : Uncommented (front ++ ['/']))
    (comment : List Char) : beforeComment (front ++ '/' :: '/' :: comment) = front := by
  induction front with
  | nil => rfl
  | cons c front ih =>
    rw [List.cons_append] at h ⊢
    obtain ⟨hslashes, hrest⟩ := (uncommented_cons_iff c _).1 h
    have hnot : ¬ (c = '/' ∧ (front ++ '/' :: '/' :: comment).head? = some '/') := by
      cases front <;> simpa using hslashes
    rw [beforeComment_cons c _ hnot, ih hrest]

theorem inFrontOfComment_beforeComment (raw : List Char) :
    InFrontOfComment raw (beforeComment raw) := by
  induction raw with
  | nil => exact .inl ⟨uncommented_nil, rfl⟩
  | cons c cs ih =>
    by_cases h : c = '/' ∧ cs.head? = some '/'
    · -- The comment starts here.
      obtain ⟨rfl, hslash⟩ := h
      obtain ⟨rest, rfl⟩ := List.head?_eq_some_iff.1 hslash
      exact .inr ⟨rest, rfl, (uncommented_cons_iff '/' []).2 ⟨by simp, uncommented_nil⟩⟩
    · rw [beforeComment_cons c cs h]
      obtain ⟨hcs, hfront⟩ | ⟨comment, hcs, hfront⟩ := ih
      · exact .inl ⟨(uncommented_cons_iff c cs).2 ⟨h, hcs⟩, by rw [hfront]⟩
      · refine .inr ⟨comment, congrArg (c :: ·) hcs, (uncommented_cons_iff c _).2 ⟨?_, hfront⟩⟩
        rintro ⟨hc, hslash⟩
        -- The second slash would follow the first one in the text as well.
        apply h
        refine ⟨hc, ?_⟩
        rw [hcs]
        generalize beforeComment cs = front at hslash
        cases front with
        | nil => rfl
        | cons d front => exact hslash

/-- **There is one way to cut off a comment.** -/
theorem inFrontOfComment_iff (raw front : List Char) :
    InFrontOfComment raw front ↔ front = beforeComment raw := by
  constructor
  · rintro (⟨hraw, rfl⟩ | ⟨comment, rfl, hfront⟩)
    · exact hraw.beforeComment_eq.symm
    · exact (beforeComment_append_slashes hfront comment).symm
  · rintro rfl
    exact inFrontOfComment_beforeComment raw

/-- **A line has one code.** -/
theorem isCode_iff (raw c : List Char) : IsCode raw c ↔ c = code raw := by
  constructor
  · rintro ⟨w, v, hw, hv, hc, hfront⟩
    rw [code, ← (inFrontOfComment_iff raw _).1 hfront, Text.trim_blanks_append hw,
      Text.trim_append_blanks c hv, hc.trim_eq]
  · rintro rfl
    obtain ⟨w, v, hw, hv, hcode⟩ := Text.exists_trim (beforeComment raw)
    exact ⟨w, v, hw, hv, trimmed_code raw, (inFrontOfComment_iff raw _).2 hcode.symm⟩

/-! ## §2 Labels that are refused -/

/-- In front of the first colon stands a text that has a blank in it. -/
def BlankLabel (label : String) (c : List Char) : Prop :=
  label ≠ "" ∧ (∃ b ∈ label.toList, isBlank b = true) ∧
    ':' ∉ label.toList ∧ ∃ rest, c = label.toList ++ ':' :: rest

/-- The label is refused because there is none exactly if the line starts with a colon. -/
theorem takeLabel_eq_emptyLabel_iff (c : List Char) :
    takeLabel c = .error .emptyLabel ↔ c.head? = some ':' := by
  constructor
  · intro h
    by_cases hcolon : ':' ∈ c
    · obtain ⟨front, rest, rfl, hfront⟩ := List.eq_append_cons_of_mem hcolon
      rw [takeLabel_append hfront] at h
      split at h
      · rename_i hempty
        rw [hempty]
        rfl
      · split at h <;> exact absurd h (by simp)
    · rw [takeLabel_of_not_mem hcolon] at h
      exact absurd h (by simp)
  · intro h
    obtain ⟨rest, rfl⟩ := List.head?_eq_some_iff.1 h
    exact takeLabel_append List.not_mem_nil rest

/-- The label is refused for its blanks exactly if it has some. -/
theorem takeLabel_eq_labelWithBlank_iff (c : List Char) (label : String) :
    takeLabel c = .error (.labelWithBlank label) ↔ BlankLabel label c := by
  constructor
  · intro h
    by_cases hcolon : ':' ∈ c
    · obtain ⟨front, rest, rfl, hfront⟩ := List.eq_append_cons_of_mem hcolon
      rw [takeLabel_append hfront] at h
      by_cases hempty : front = []
      · rw [if_pos hempty] at h
        exact absurd h (by simp)
      · by_cases hblank : front.any isBlank = true
        · rw [if_neg hempty, if_pos hblank] at h
          obtain rfl := Flaw.labelWithBlank.inj (Except.error.inj h)
          refine ⟨by simpa using hempty, ?_, ?_, rest, ?_⟩
          · rw [String.toList_ofList]
            exact List.any_eq_true.1 hblank
          · rwa [String.toList_ofList]
          · rw [String.toList_ofList]
        · rw [if_neg hempty, if_neg hblank] at h
          exact absurd h (by simp)
    · rw [takeLabel_of_not_mem hcolon] at h
      exact absurd h (by simp)
  · rintro ⟨hne, hblank, hcolon, rest, rfl⟩
    rw [takeLabel_append hcolon, if_neg (mt String.toList_eq_nil_iff.1 hne),
      if_pos (List.any_eq_true.2 hblank), String.ofList_toList]

/-- There are no other reasons for which a label is refused. -/
theorem takeLabel_error {c : List Char} {flaw : Flaw} (h : takeLabel c = .error flaw) :
    flaw = .emptyLabel ∨ ∃ label, flaw = .labelWithBlank label := by
  unfold takeLabel at h
  split at h
  · exact absurd h (by simp)
  · split at h
    · exact .inl (Except.error.inj h).symm
    · split at h
      · exact .inr ⟨_, (Except.error.inj h).symm⟩
      · exact absurd h (by simp)

/-! ## §3 Every line -/

/-- A line is refused exactly if its label is, and for the same reason. -/
theorem Fields.ofLine_eq_error_iff (raw : List Char) (flaw : Flaw) :
    Fields.ofLine raw = .error flaw ↔ takeLabel (code raw) = .error flaw := by
  rw [ofLine_eq]
  cases takeLabel (code raw) <;> simp

/-- **A line is written with the fields of one line at most.** -/
theorem Fields.Written.unique {fields others : Fields} {raw : List Char}
    (h : fields.Written (code raw)) (hothers : others.Written (code raw)) : fields = others := by
  have hfields := (ofLine_eq_ok_iff raw fields).2 h
  rw [(ofLine_eq_ok_iff raw others).2 hothers] at hfields
  exact (Except.ok.inj hfields).symm

/-- **The verdict on a line.** Every line has one code. The line is refused for an empty label exactly if
its code starts with a colon, and for a label with a blank in it exactly if such a text stands in front
of the first colon. Every other line is accepted. A line has the fields with which its code is written,
so the code of a line that is refused is written with none; and no code is written with two. -/
theorem Fields.ofLine_exact (raw : List Char) :
    ∃ c, (∀ d, IsCode raw d ↔ d = c) ∧
      (Fields.ofLine raw = .error .emptyLabel ↔ c.head? = some ':') ∧
      (∀ label, Fields.ofLine raw = .error (.labelWithBlank label) ↔ BlankLabel label c) ∧
      ((∃ fields, Fields.ofLine raw = .ok fields) ↔
        c.head? ≠ some ':' ∧ ∀ label, ¬ BlankLabel label c) ∧
      (∀ fields, Fields.ofLine raw = .ok fields ↔ fields.Written c) ∧
      ∀ fields others : Fields, fields.Written c → others.Written c → fields = others := by
  refine ⟨code raw, isCode_iff raw, ?empty, ?blank, ?accepted, Fields.ofLine_eq_ok_iff raw, ?unique⟩
  case empty => rw [Fields.ofLine_eq_error_iff, takeLabel_eq_emptyLabel_iff]
  case blank =>
    intro label
    rw [Fields.ofLine_eq_error_iff, takeLabel_eq_labelWithBlank_iff]
  case accepted =>
    constructor
    · rintro ⟨fields, hfields⟩
      constructor
      · rw [ne_eq, ← takeLabel_eq_emptyLabel_iff, ← Fields.ofLine_eq_error_iff, hfields]
        simp
      · intro label
        rw [← takeLabel_eq_labelWithBlank_iff, ← Fields.ofLine_eq_error_iff, hfields]
        simp
    · rintro ⟨hempty, hblank⟩
      cases hline : Fields.ofLine raw with
      | ok fields => exact ⟨fields, rfl⟩
      | error flaw =>
        have hlabel := (Fields.ofLine_eq_error_iff raw flaw).1 hline
        rcases takeLabel_error hlabel with rfl | ⟨label, rfl⟩
        · exact absurd ((takeLabel_eq_emptyLabel_iff _).1 hlabel) hempty
        · exact absurd ((takeLabel_eq_labelWithBlank_iff _ _).1 hlabel) (hblank label)
  case unique => exact fun fields others hfields hothers => hfields.unique hothers

end Dlx.Assembly
