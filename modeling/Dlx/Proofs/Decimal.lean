import Dlx.Text.Decimal
import Mathlib.Data.List.TakeWhile

/-!
# Numerals

Which texts are numerals, and which number each of them denotes. This is said by the place of a digit: it
counts ten times for every digit behind it. Reading from left to right finds the same number.

- **§1** digits (`Numeral`)
- **§2** digits behind an optional minus sign (`SignedNumeral`)
- **§3** values within bounds, which may have either sign (`ValueNumeral`)
-/

namespace Dlx.Decimal

/-! ## §1 Digits -/

/-- The number that a digit denotes. -/
def digitValue (c : Char) : Nat :=
  c.toNat - '0'.toNat

/-- One or more digits, and the number that they denote. -/
inductive Numeral : List Char → Nat → Prop where
  | single {c : Char} : c.isDigit = true → Numeral [c] (digitValue c)
  | cons {c : Char} {cs : List Char} {n : Nat} :
      c.isDigit = true → Numeral cs n → Numeral (c :: cs) (digitValue c * Nat.pow 10 cs.length + n)

theorem Numeral.isDigit {cs : List Char} {n : Nat} (h : Numeral cs n) :
    ∀ c ∈ cs, c.isDigit = true := by
  induction h with
  | single hc =>
    intro d hd
    rwa [List.mem_singleton.1 hd]
  | cons hc _ ih =>
    intro d hd
    rcases List.mem_cons.1 hd with rfl | hrest
    · exact hc
    · exact ih d hrest

theorem Numeral.ne_nil {cs : List Char} {n : Nat} (h : Numeral cs n) : cs ≠ [] := by
  cases h <;> simp

/-- Reading digits from left to right gives the number that they denote. -/
theorem Numeral.ofDigitChars_eq {cs : List Char} {n : Nat} (h : Numeral cs n) :
    Nat.ofDigitChars 10 cs 0 = n := by
  induction h with
  | single hc => simp [Nat.ofDigitChars, digitValue]
  | @cons c cs n hc _ ih =>
    -- What has been read before the other digits is multiplied by ten once for each of them.
    rw [Nat.ofDigitChars_cons, Nat.ofDigitChars_eq_ofDigitChars_zero, ih, digitValue, Nat.mul_zero,
      Nat.zero_add, Nat.mul_comm]
    rfl

/-- One or more digits denote a number. -/
theorem exists_numeral {cs : List Char} (hne : cs ≠ []) (h : ∀ c ∈ cs, c.isDigit = true) :
    ∃ n, Numeral cs n := by
  induction cs with
  | nil => exact absurd rfl hne
  | cons c cs ih =>
    have hc : c.isDigit = true := h c (List.mem_cons_self ..)
    by_cases hlast : cs = []
    · subst hlast
      exact ⟨_, .single hc⟩
    · obtain ⟨n, hn⟩ := ih hlast fun d hd => h d (List.mem_cons_of_mem _ hd)
      exact ⟨_, .cons hc hn⟩

/-- **A text is read as a number exactly if it is a numeral of that number.** -/
theorem nat?_eq_some_iff (cs : List Char) (n : Nat) : nat? cs = some n ↔ Numeral cs n := by
  constructor
  · intro h
    rw [nat?] at h
    split at h
    · rename_i hdigits
      obtain ⟨m, hm⟩ := exists_numeral hdigits.1 (List.all_eq_true.1 hdigits.2)
      rw [hm.ofDigitChars_eq] at h
      rwa [← Option.some.inj h]
    · exact absurd h (by simp)
  · intro h
    rw [nat?, if_pos ⟨h.ne_nil, List.all_eq_true.2 h.isDigit⟩, h.ofDigitChars_eq]

/-- A number is written as a numeral of it. -/
theorem numeral_toDigits (n : Nat) : Numeral (Nat.toDigits 10 n) n :=
  (nat?_eq_some_iff ..).1 (nat?_toDigits n)

/-- **Zeros in front do not change the number.** -/
theorem numeral_zero_cons_iff {cs : List Char} (hne : cs ≠ []) (n : Nat) :
    Numeral ('0' :: cs) n ↔ Numeral cs n := by
  have hzero : digitValue '0' * Nat.pow 10 cs.length = 0 := Nat.zero_mul _
  constructor
  · intro h
    cases h with
    | single _ => exact absurd rfl hne
    | @cons _ _ m _ hcs => rwa [hzero, Nat.zero_add]
  · intro h
    have hcons := Numeral.cons (c := '0') rfl h
    rwa [hzero, Nat.zero_add] at hcons

/-! ## §2 Signs -/

/-- Digits behind an optional minus sign, and the integer that they denote. -/
inductive SignedNumeral : List Char → Int → Prop where
  | plain {cs : List Char} {n : Nat} : Numeral cs n → SignedNumeral cs n
  | minus {cs : List Char} {n : Nat} : Numeral cs n → SignedNumeral ('-' :: cs) (-n)

/-- A numeral with a sign starts with that sign or with a digit. -/
theorem SignedNumeral.head {cs : List Char} {i : Int} (h : SignedNumeral cs i) :
    ∃ c rest, cs = c :: rest ∧ (c = '-' ∨ c.isDigit = true) := by
  cases h with
  | plain hcs =>
    obtain ⟨c, rest, rfl⟩ := List.exists_cons_of_ne_nil hcs.ne_nil
    exact ⟨c, rest, rfl, .inr (hcs.isDigit c (List.mem_cons_self ..))⟩
  | minus hcs => exact ⟨'-', _, rfl, .inl rfl⟩

/-- Nothing but a sign and digits occurs in it. -/
theorem SignedNumeral.not_mem {cs : List Char} {i : Int} (h : SignedNumeral cs i) {c : Char}
    (hdigit : c.isDigit = false) (hminus : c ≠ '-') : c ∉ cs := by
  have hdigits : ∀ {ds : List Char} {n : Nat}, Numeral ds n → c ∉ ds := by
    intro ds n hds hmem
    rw [hds.isDigit c hmem] at hdigit
    exact absurd hdigit (by simp)
  cases h with
  | plain hcs => exact hdigits hcs
  | minus hcs =>
    intro hmem
    rcases List.mem_cons.1 hmem with rfl | hrest
    · exact hminus rfl
    · exact hdigits hcs hrest

theorem int?_minus (digits : List Char) :
    int? ('-' :: digits) = (nat? digits).map fun n : Nat => -(n : Int) := by
  rw [int?]
  cases nat? digits <;> rfl

/-- Without a minus sign an integer is a number. -/
theorem int?_plain {cs : List Char} (h : ∀ digits, cs ≠ '-' :: digits) :
    int? cs = (nat? cs).map fun n : Nat => (n : Int) := by
  rw [int?.eq_2 cs h]
  cases nat? cs <;> rfl

/-- **A text is read as an integer exactly if it is a numeral of that integer.** -/
theorem int?_eq_some_iff (cs : List Char) (i : Int) : int? cs = some i ↔ SignedNumeral cs i := by
  constructor
  · intro h
    by_cases hminus : ∃ digits, cs = '-' :: digits
    · obtain ⟨digits, rfl⟩ := hminus
      rw [int?_minus] at h
      obtain ⟨n, hn, rfl⟩ := Option.map_eq_some_iff.1 h
      exact .minus ((nat?_eq_some_iff digits n).1 hn)
    · rw [int?_plain (not_exists.1 hminus)] at h
      obtain ⟨n, hn, rfl⟩ := Option.map_eq_some_iff.1 h
      exact .plain ((nat?_eq_some_iff cs n).1 hn)
  · intro h
    cases h with
    | @plain _ n hcs =>
      have hminus : ∀ digits, cs ≠ '-' :: digits := by
        -- A minus sign is no digit.
        rintro digits rfl
        exact absurd (hcs.isDigit '-' (List.mem_cons_self ..)) (by decide)
      rw [int?_plain hminus, (nat?_eq_some_iff cs n).2 hcs, Option.map_some]
    | @minus digits n hcs => rw [int?_minus, (nat?_eq_some_iff digits n).2 hcs, Option.map_some]

/-- An integer is written as a numeral of it. -/
theorem signedNumeral_ofInt (i : Int) : SignedNumeral (ofInt i).toList i :=
  (int?_eq_some_iff ..).1 (int?_toList_ofInt i)

/-! ## §3 Values within bounds -/

/-- Digits behind an optional sign of either kind, and the integer that they denote. -/
inductive ValueNumeral : List Char → Int → Prop where
  | signed {cs : List Char} {i : Int} : SignedNumeral cs i → ValueNumeral cs i
  | plus {cs : List Char} {n : Nat} : Numeral cs n → ValueNumeral ('+' :: cs) n

/-- The run of digits in front of a numeral is all of it. -/
theorem numeral_iff_takeWhile (cs : List Char) (n : Nat) :
    Numeral cs n ↔ (cs.takeWhile Char.isDigit ≠ [] ∧ cs.takeWhile Char.isDigit = cs) ∧
      Nat.ofDigitChars 10 (cs.takeWhile Char.isDigit) 0 = n := by
  constructor
  · intro h
    have hrun : cs.takeWhile Char.isDigit = cs := List.takeWhile_eq_self_iff.2 h.isDigit
    rw [hrun]
    exact ⟨⟨h.ne_nil, rfl⟩, h.ofDigitChars_eq⟩
  · intro ⟨⟨hne, hrun⟩, hvalue⟩
    obtain ⟨m, hm⟩ := exists_numeral hne (List.all_eq_true.1 List.all_takeWhile)
    rw [hm.ofDigitChars_eq] at hvalue
    rwa [← hvalue, ← hrun]

/-- Digits are read as the number that they denote, with the sign that is given. -/
theorem bounded_eq_ok_iff (low high : Int) (negative : Bool) (cs : List Char) (i : Int) :
    bounded low high negative cs = .ok i ↔
      (∃ n : Nat, Numeral cs n ∧ (if negative then -(n : Int) else n) = i) ∧ low ≤ i ∧ i ≤ high := by
  simp only [numeral_iff_takeWhile, and_assoc, exists_and_left, exists_eq_left', bounded]
  generalize cs.takeWhile Char.isDigit = run
  generalize (if negative then -(Nat.ofDigitChars 10 run 0 : Int) else _) = value
  -- A value is answered if none of the three complaints is made.
  by_cases hhigh : high < value
  · rw [if_pos hhigh]
    simp only [reduceCtorEq, false_iff, not_and]
    omega
  · by_cases hlow : value < low
    · rw [if_neg hhigh, if_pos hlow]
      simp only [reduceCtorEq, false_iff, not_and]
      omega
    · rw [if_neg hhigh, if_neg hlow]
      by_cases hrun : run = [] ∨ run ≠ cs
      · rw [if_pos hrun]
        simp only [reduceCtorEq, false_iff]
        intro ⟨hne, heq, _⟩
        exact hrun.elim hne fun hother => hother heq
      · rw [if_neg hrun, Except.ok.injEq]
        rw [not_or, not_not] at hrun
        constructor
        · rintro rfl
          exact ⟨hrun.1, hrun.2, rfl, by omega⟩
        · exact fun h => h.2.2.1

/-- Digits without a sign are read as such. -/
theorem Numeral.within_eq {cs : List Char} {n : Nat} (h : Numeral cs n) (low high : Int) :
    within low high cs = bounded low high false cs := by
  have hdigit : ∀ {c : Char} {rest : List Char}, cs = c :: rest → c.isDigit = true := by
    rintro c rest rfl
    exact h.isDigit c (List.mem_cons_self ..)
  unfold within
  split
  · exact absurd rfl h.ne_nil
  · exact absurd (hdigit rfl) (by decide)
  · exact absurd (hdigit rfl) (by decide)
  · rfl

/-- **A text is read as a value exactly if it is a numeral of it** and the value lies within the bounds. -/
theorem within_eq_ok_iff (low high : Int) (cs : List Char) (i : Int) :
    within low high cs = .ok i ↔ ValueNumeral cs i ∧ low ≤ i ∧ i ≤ high := by
  constructor
  · intro h
    unfold within at h
    split at h
    · exact absurd h (by simp)
    · obtain ⟨⟨n, hn, rfl⟩, hrange⟩ := (bounded_eq_ok_iff ..).1 h
      exact ⟨.plus hn, hrange⟩
    · obtain ⟨⟨n, hn, rfl⟩, hrange⟩ := (bounded_eq_ok_iff ..).1 h
      exact ⟨.signed (.minus hn), hrange⟩
    · obtain ⟨⟨n, hn, rfl⟩, hrange⟩ := (bounded_eq_ok_iff ..).1 h
      exact ⟨.signed (.plain hn), hrange⟩
  · intro ⟨hcs, hrange⟩
    cases hcs with
    | plus hn => exact (bounded_eq_ok_iff low high false _ _).2 ⟨⟨_, hn, rfl⟩, hrange⟩
    | signed hcs =>
      cases hcs with
      | minus hn => exact (bounded_eq_ok_iff low high true _ _).2 ⟨⟨_, hn, rfl⟩, hrange⟩
      | plain hn =>
        rw [hn.within_eq]
        exact (bounded_eq_ok_iff low high false _ _).2 ⟨⟨_, hn, rfl⟩, hrange⟩

end Dlx.Decimal
