import Dlx.Assembly.Token
import Dlx.Proofs.Decimal
import Dlx.Proofs.Text

/-!
# Which texts are tokens

A text is a token exactly if it has one of four shapes and its numbers are within range. The shapes are
patterns of characters and exclude each other, so the kind of operand that is wanted plays no part.

Another way to find the token of a text is to let a scanner take the longest part in front that has one
of the shapes, and then to ask whether this is the whole text. That gives the same token, whatever
else the scanner does.

- **§1** numbers within range
- **§2** the shapes of tokens (`Token.Written`), and reading them
- **§3** scanners (`Pattern`, `Scanner`)
- **§4** every text
-/

namespace Dlx

open Decimal (Numeral SignedNumeral)

/-! ## §1 Numbers -/

/-- An index is read from a numeral of it, below the bound for numerals. -/
theorem Register.index?_eq_some_iff (cs : List Char) (n : Nat) :
    Register.index? cs = some n ↔ Numeral cs n ∧ n < UInt32.size := by
  rw [Register.index?, Option.filter_eq_some_iff, Decimal.nat?_eq_some_iff, decide_eq_true_eq]
  rfl

namespace Assembly

/-- A word is read from a numeral of its value. -/
theorem Token.word?_eq_some_iff (cs : List Char) (w : Word) :
    Token.word? cs = some w ↔ SignedNumeral cs w.toInt := by
  rw [word?, Option.bind_eq_some_iff]
  constructor
  · rintro ⟨i, hi, hw⟩
    rw [(Word.ofInt?_eq_some_iff i w).1 hw]
    exact (Decimal.int?_eq_some_iff cs i).1 hi
  · intro h
    exact ⟨w.toInt, (Decimal.int?_eq_some_iff cs w.toInt).2 h, Word.ofInt?_toInt w⟩

/-! ## §2 Shapes -/

namespace Token

/-- The texts of a token. Its numbers may have zeros in front, and must be within range. -/
inductive Written : Token → List Char → Prop where
  | register {digits : List Char} {n : Nat} :
      Numeral digits n → n < UInt32.size → Written (.register n) ('R' :: digits)
  | immediate {digits : List Char} {w : Word} :
      SignedNumeral digits w.toInt → Written (.immediate w) ('#' :: digits)
  | indirect {offset digits : List Char} {w : Word} {n : Nat} :
      SignedNumeral offset w.toInt → Numeral digits n → n < UInt32.size →
      Written (.indirect w n) (offset ++ '(' :: 'R' :: (digits ++ [')']))
  | number {cs : List Char} {w : Word} : SignedNumeral cs w.toInt → Written (.number w) cs

theorem register?_eq_some_iff (cs : List Char) (n : Nat) :
    register? cs = some n ↔ ∃ digits, cs = 'R' :: digits ∧ Numeral digits n ∧ n < UInt32.size := by
  unfold register?
  split
  · rename_i digits
    rw [Register.index?_eq_some_iff]
    constructor
    · intro h
      exact ⟨digits, rfl, h⟩
    · rintro ⟨others, heq, h⟩
      obtain ⟨-, rfl⟩ := List.cons.inj heq
      exact h
  · rename_i hother
    constructor
    · intro h
      exact absurd h (by simp)
    · rintro ⟨digits, rfl, -⟩
      exact absurd rfl (hother digits)

/-- A place in memory, given what stands before and behind its opening parenthesis. -/
theorem indirect?_eq_some_iff (offset rest : List Char) (token : Token) :
    indirect? offset rest = some token ↔
      ∃ w n digits, token = .indirect w n ∧ rest = 'R' :: (digits ++ [')']) ∧
        SignedNumeral offset w.toInt ∧ Numeral digits n ∧ n < UInt32.size := by
  rw [indirect?]
  constructor
  · intro h
    split at h
    · rename_i hlast
      obtain ⟨front, rfl⟩ := List.getLast?_eq_some_iff.1 hlast
      rw [List.dropLast_concat] at h
      obtain ⟨w, hw, hbase⟩ := Option.bind_eq_some_iff.1 h
      obtain ⟨n, hn, htoken⟩ := Option.bind_eq_some_iff.1 hbase
      obtain ⟨digits, rfl, hdigits⟩ := (register?_eq_some_iff front n).1 hn
      exact ⟨w, n, digits, (Option.some.inj htoken).symm, rfl, (word?_eq_some_iff offset w).1 hw, hdigits⟩
    · exact absurd h (by simp)
  · rintro ⟨w, n, digits, rfl, rfl, hoffset, hdigits⟩
    have hw : word? offset = some w := (word?_eq_some_iff offset w).2 hoffset
    have hn : register? ('R' :: digits) = some n :=
      (register?_eq_some_iff _ n).2 ⟨digits, rfl, hdigits⟩
    rw [← List.cons_append, List.getLast?_concat, if_pos rfl, List.dropLast_concat, hw, hn]
    rfl

/-- With a sign or a digit in front, a text is a place in memory or a bare number. -/
theorem read?_of_head {c : Char} (h : c = '-' ∨ c.isDigit = true) (cs : List Char) :
    read? (c :: cs) =
      match Text.cut? '(' (c :: cs) with
      | some (offset, rest) => indirect? offset rest
      | none => (word? (c :: cs)).map .number := by
  have hR : c ≠ 'R' := by
    rintro rfl
    exact absurd h (by decide)
  have hhash : c ≠ '#' := by
    rintro rfl
    exact absurd h (by decide)
  unfold read?
  split
  · rename_i heq
    exact absurd (List.cons.inj heq).1 hR
  · rename_i heq
    exact absurd (List.cons.inj heq).1 hhash
  · rfl

/-- The parenthesis behind an offset is the first one. -/
theorem cut?_offset {offset : List Char} {i : Int} (h : SignedNumeral offset i) (rest : List Char) :
    Text.cut? '(' (offset ++ '(' :: rest) = some (offset, rest) :=
  (Text.cut?_eq_some_iff ..).2 ⟨h.not_mem rfl (by decide), rfl⟩

theorem read?_offset {offset : List Char} {i : Int} (h : SignedNumeral offset i) (rest : List Char) :
    read? (offset ++ '(' :: rest) = indirect? offset rest := by
  have hcut := cut?_offset h rest
  obtain ⟨c, front, rfl, hhead⟩ := h.head
  rw [List.cons_append] at hcut ⊢
  rw [read?_of_head hhead, hcut]

theorem read?_numeral {cs : List Char} {i : Int} (h : SignedNumeral cs i) :
    read? cs = (word? cs).map .number := by
  have hcut := (Text.cut?_eq_none_iff '(' cs).2 (h.not_mem rfl (by decide))
  obtain ⟨c, rest, rfl, hhead⟩ := h.head
  rw [read?_of_head hhead, hcut]

/-- **A text is read as a token exactly if it is written so.** -/
theorem read?_eq_some_iff (cs : List Char) (token : Token) :
    read? cs = some token ↔ token.Written cs := by
  constructor
  · intro h
    rw [read?.eq_def] at h
    split at h
    · obtain ⟨n, hn, rfl⟩ := Option.map_eq_some_iff.1 h
      obtain ⟨digits, hcons, hdigits, hbound⟩ := (register?_eq_some_iff _ n).1 hn
      rw [hcons]
      exact .register hdigits hbound
    · obtain ⟨w, hw, rfl⟩ := Option.map_eq_some_iff.1 h
      exact .immediate ((word?_eq_some_iff _ w).1 hw)
    · split at h
      · rename_i offset rest hcut
        obtain ⟨-, rfl⟩ := (Text.cut?_eq_some_iff '(' cs offset rest).1 hcut
        obtain ⟨w, n, digits, rfl, rfl, hoffset, hdigits, hbound⟩ :=
          (indirect?_eq_some_iff offset rest token).1 h
        exact .indirect hoffset hdigits hbound
      · obtain ⟨w, hw, rfl⟩ := Option.map_eq_some_iff.1 h
        exact .number ((word?_eq_some_iff cs w).1 hw)
  · intro h
    cases h with
    | @register digits n hdigits hbound =>
      have hn : register? ('R' :: digits) = some n :=
        (register?_eq_some_iff _ n).2 ⟨digits, rfl, hdigits, hbound⟩
      rw [read?, hn, Option.map_some]
    | @immediate digits w hdigits =>
      rw [read?, (word?_eq_some_iff digits w).2 hdigits, Option.map_some]
    | @indirect offset digits w n hoffset hdigits hbound =>
      rw [read?_offset hoffset]
      exact (indirect?_eq_some_iff ..).2 ⟨w, n, digits, rfl, rfl, hoffset, hdigits, hbound⟩
    | @number _ w hcs =>
      rw [read?_numeral hcs, (word?_eq_some_iff cs w).2 hcs, Option.map_some]

theorem ofText?_eq_some_iff (text : String) (token : Token) :
    ofText? text = some token ↔ token.Written text.toList :=
  read?_eq_some_iff text.toList token

/-- A text is written as one token at most. -/
theorem Written.unique {token other : Token} {cs : List Char} (h : token.Written cs)
    (hother : other.Written cs) : token = other := by
  have hread := (read?_eq_some_iff cs token).2 h
  rw [(read?_eq_some_iff cs other).2 hother] at hread
  exact (Option.some.inj hread).symm

end Token

/-! ## §3 Scanners -/

/-- What the characters of a token may look like, whatever its numbers. -/
inductive Pattern where
  | register
  | immediate
  | indirect
  | number
  deriving DecidableEq, Repr

namespace Pattern

/-- All patterns. -/
def all : List Pattern :=
  [.register, .immediate, .indirect, .number]

theorem mem_all (pattern : Pattern) : pattern ∈ all := by
  cases pattern <;> decide

/-- The texts of a pattern, which are those of the regular expressions `R[0-9]+`, `#-?[0-9]+`,
`-?[0-9]+\(R[0-9]+\)` and `-?[0-9]+`. -/
def Matches : Pattern → List Char → Prop
  | .register, cs => ∃ digits n, cs = 'R' :: digits ∧ Numeral digits n
  | .immediate, cs => ∃ digits i, cs = '#' :: digits ∧ SignedNumeral digits i
  | .indirect, cs => ∃ offset digits i n, cs = offset ++ '(' :: 'R' :: (digits ++ [')']) ∧
      SignedNumeral offset i ∧ Numeral digits n
  | .number, cs => ∃ i, SignedNumeral cs i

/-- The test for the texts of the pattern. -/
def test : Pattern → List Char → Bool
  | .register, 'R' :: digits => (Decimal.nat? digits).isSome
  | .immediate, '#' :: digits => (Decimal.int? digits).isSome
  | .indirect, cs =>
    match Text.cut? '(' cs with
    | some (offset, 'R' :: rest) =>
      (Decimal.int? offset).isSome && rest.getLast? == some ')' && (Decimal.nat? rest.dropLast).isSome
    | _ => false
  | .number, cs => (Decimal.int? cs).isSome
  | _, _ => false

theorem matches_of_test {pattern : Pattern} {cs : List Char} (h : pattern.test cs = true) :
    pattern.Matches cs := by
  unfold test at h
  split at h
  · obtain ⟨n, hn⟩ := Option.isSome_iff_exists.1 h
    exact ⟨_, n, rfl, (Decimal.nat?_eq_some_iff _ n).1 hn⟩
  · obtain ⟨i, hi⟩ := Option.isSome_iff_exists.1 h
    exact ⟨_, i, rfl, (Decimal.int?_eq_some_iff _ i).1 hi⟩
  · split at h
    · rename_i offset rest hcut
      rw [Bool.and_eq_true, Bool.and_eq_true, beq_iff_eq] at h
      obtain ⟨⟨hoffset, hlast⟩, hdigits⟩ := h
      obtain ⟨i, hi⟩ := Option.isSome_iff_exists.1 hoffset
      obtain ⟨digits, rfl⟩ := List.getLast?_eq_some_iff.1 hlast
      rw [List.dropLast_concat] at hdigits
      obtain ⟨n, hn⟩ := Option.isSome_iff_exists.1 hdigits
      exact ⟨offset, digits, i, n, ((Text.cut?_eq_some_iff '(' _ _ _).1 hcut).2,
        (Decimal.int?_eq_some_iff offset i).1 hi, (Decimal.nat?_eq_some_iff digits n).1 hn⟩
    · exact absurd h (by simp)
  · obtain ⟨i, hi⟩ := Option.isSome_iff_exists.1 h
    exact ⟨i, (Decimal.int?_eq_some_iff _ i).1 hi⟩
  · exact absurd h (by simp)

theorem test_of_matches {pattern : Pattern} {cs : List Char} (h : pattern.Matches cs) :
    pattern.test cs = true := by
  cases pattern with
  | register =>
    obtain ⟨digits, n, rfl, hdigits⟩ := h
    rw [test, (Decimal.nat?_eq_some_iff digits n).2 hdigits]
    rfl
  | immediate =>
    obtain ⟨digits, i, rfl, hdigits⟩ := h
    rw [test, (Decimal.int?_eq_some_iff digits i).2 hdigits]
    rfl
  | indirect =>
    obtain ⟨offset, digits, i, n, rfl, hoffset, hdigits⟩ := h
    simp [test, Token.cut?_offset hoffset, (Decimal.int?_eq_some_iff offset i).2 hoffset,
      (Decimal.nat?_eq_some_iff digits n).2 hdigits]
  | number =>
    obtain ⟨i, hcs⟩ := h
    rw [test, (Decimal.int?_eq_some_iff cs i).2 hcs]
    rfl

instance (pattern : Pattern) (cs : List Char) : Decidable (pattern.Matches cs) :=
  decidable_of_iff (pattern.test cs = true) ⟨matches_of_test, test_of_matches⟩

theorem Matches.ne_nil {pattern : Pattern} {cs : List Char} (h : pattern.Matches cs) : cs ≠ [] := by
  rintro rfl
  exact absurd (test_of_matches h) (by cases pattern <;> decide)

/-- The token of a text of the pattern, if its numbers are within range. -/
def token? : Pattern → List Char → Option Token
  | .register, cs => (Token.register? cs).map .register
  | .immediate, cs => (Token.word? cs.tail).map .immediate
  | .indirect, cs => (Text.cut? '(' cs).bind fun cut => Token.indirect? cut.1 cut.2
  | .number, cs => (Token.word? cs).map .number

/-- The pattern need not be known to find the token. -/
theorem token?_eq_read? {pattern : Pattern} {cs : List Char} (h : pattern.Matches cs) :
    pattern.token? cs = Token.read? cs := by
  cases pattern with
  | register =>
    obtain ⟨digits, n, rfl, -⟩ := h
    rfl
  | immediate =>
    obtain ⟨digits, i, rfl, -⟩ := h
    rfl
  | indirect =>
    obtain ⟨offset, digits, i, n, rfl, hoffset, -⟩ := h
    rw [Token.read?_offset hoffset, token?, Token.cut?_offset hoffset]
    rfl
  | number =>
    obtain ⟨i, hcs⟩ := h
    exact (Token.read?_numeral hcs).symm

end Pattern

/-- The text of a token is one of a pattern. -/
theorem Token.Written.exists_matches {token : Token} {cs : List Char} (h : token.Written cs) :
    ∃ pattern : Pattern, pattern.Matches cs := by
  cases h with
  | register hdigits => exact ⟨.register, _, _, rfl, hdigits⟩
  | immediate hdigits => exact ⟨.immediate, _, _, rfl, hdigits⟩
  | indirect hoffset hdigits => exact ⟨.indirect, _, _, _, _, rfl, hoffset, hdigits⟩
  | number hcs => exact ⟨.number, _, hcs⟩

/-- Takes a part off the front of a text and says which pattern it has, or finds no such part. -/
abbrev Scanner := List Char → Option (Pattern × List Char)

namespace Scanner

/-- The scanner takes the longest part in front of a text that has one of the patterns. -/
structure LongestMatch (scan : Scanner) : Prop where
  found : ∀ {cs : List Char} {pattern : Pattern} {lexeme : List Char},
    scan cs = some (pattern, lexeme) → lexeme <+: cs ∧ pattern.Matches lexeme
  longest : ∀ {cs : List Char} {pattern : Pattern} {lexeme : List Char},
    scan cs = some (pattern, lexeme) →
      ∀ (other : Pattern) (front : List Char), front <+: cs → other.Matches front →
        front.length ≤ lexeme.length
  missing : ∀ {cs : List Char}, scan cs = none →
    ∀ (pattern : Pattern) (front : List Char), front <+: cs → ¬ pattern.Matches front

/-- The token of a text that the scanner takes as a whole. -/
def token? (scan : Scanner) (cs : List Char) : Option Token :=
  match scan cs with
  | some (pattern, lexeme) => if lexeme = cs then pattern.token? lexeme else none
  | none => none

/-- **Scanning for the longest match finds the token of a text.** -/
theorem LongestMatch.token?_eq_read? {scan : Scanner} (h : scan.LongestMatch) (cs : List Char) :
    scan.token? cs = Token.read? cs := by
  -- A text that has a pattern is the longest part in front of itself.
  have hnone : (∀ pattern : Pattern, ¬ pattern.Matches cs) → Token.read? cs = none := by
    intro hpattern
    rw [Option.eq_none_iff_forall_ne_some]
    intro token htoken
    obtain ⟨pattern, hmatches⟩ := ((Token.read?_eq_some_iff cs token).1 htoken).exists_matches
    exact hpattern pattern hmatches
  rw [token?]
  cases hscan : scan cs with
  | none => exact (hnone fun pattern => h.missing hscan pattern cs (List.prefix_refl cs)).symm
  | some entry =>
    obtain ⟨pattern, lexeme⟩ := entry
    obtain ⟨hfront, hmatches⟩ := h.found hscan
    by_cases hwhole : lexeme = cs
    · subst hwhole
      simp only [if_pos]
      exact Pattern.token?_eq_read? hmatches
    · simp only [if_neg hwhole]
      apply (hnone _).symm
      intro other hother
      have hlength := h.longest hscan other cs (List.prefix_refl cs) hother
      exact hwhole (hfront.eq_of_length_le hlength)

/-- The longest part in front of a text that has a pattern, among those of a length up to a bound. -/
def longestWithin (cs : List Char) : Nat → Option (Pattern × List Char)
  | 0 => none
  | bound + 1 =>
    match Pattern.all.find? fun pattern => decide (pattern.Matches (cs.take (bound + 1))) with
    | some pattern => some (pattern, cs.take (bound + 1))
    | none => longestWithin cs bound

/-- The scanner that tries every part in front, from the longest to the shortest. -/
def exhaustive : Scanner := fun cs => longestWithin cs cs.length

theorem longestWithin_exact (cs : List Char) (bound : Nat) :
    match longestWithin cs bound with
    | some (pattern, lexeme) =>
      (lexeme <+: cs ∧ pattern.Matches lexeme) ∧
        ∀ (other : Pattern) (front : List Char), front <+: cs → front.length ≤ bound →
          other.Matches front → front.length ≤ lexeme.length
    | none =>
      ∀ (other : Pattern) (front : List Char), front <+: cs → front.length ≤ bound →
        ¬ other.Matches front := by
  induction bound with
  | zero =>
    intro other front _ hlength hother
    exact hother.ne_nil (List.length_eq_zero_iff.1 (Nat.le_zero.1 hlength))
  | succ bound ih =>
    rw [longestWithin]
    cases hfind : Pattern.all.find? fun pattern => decide (pattern.Matches (cs.take (bound + 1))) with
    | some pattern =>
      have htest := List.find?_some hfind
      refine ⟨⟨List.take_prefix _ _, of_decide_eq_true htest⟩, ?_⟩
      intro other front hfront hlength _
      rw [List.length_take]
      exact Nat.le_min.2 ⟨hlength, hfront.length_le⟩
    | none =>
      -- No part of the greatest length has a pattern, so the others are left.
      have hshorter : ∀ (other : Pattern) (front : List Char), front <+: cs →
          front.length ≤ bound + 1 → other.Matches front → front.length ≤ bound := by
        intro other front hfront hlength hother
        by_cases heq : front.length = bound + 1
        · have htake : front = cs.take (bound + 1) := heq ▸ List.prefix_iff_eq_take.1 hfront
          have hnone := List.find?_eq_none.1 hfind other (Pattern.mem_all other)
          exact absurd (decide_eq_true (htake ▸ hother)) hnone
        · omega
      simp only
      cases hrest : longestWithin cs bound with
      | some entry =>
        rw [hrest] at ih
        refine ⟨ih.1, fun other front hfront hlength hother => ?_⟩
        exact ih.2 other front hfront (hshorter other front hfront hlength hother) hother
      | none =>
        rw [hrest] at ih
        intro other front hfront hlength hother
        exact ih other front hfront (hshorter other front hfront hlength hother) hother

/-- **There is a scanner for the longest match.** -/
theorem longestMatch_exhaustive : exhaustive.LongestMatch where
  found {cs pattern lexeme} hscan := by
    have hexact := longestWithin_exact cs cs.length
    rw [show longestWithin cs cs.length = some (pattern, lexeme) from hscan] at hexact
    exact hexact.1
  longest {cs pattern lexeme} hscan other front hfront hother := by
    have hexact := longestWithin_exact cs cs.length
    rw [show longestWithin cs cs.length = some (pattern, lexeme) from hscan] at hexact
    exact hexact.2 other front hfront hfront.length_le hother
  missing {cs} hscan pattern front hfront := by
    have hexact := longestWithin_exact cs cs.length
    rw [show longestWithin cs cs.length = none from hscan] at hexact
    exact hexact pattern front hfront hfront.length_le

end Scanner

/-! ## §4 Every text -/

/-- A cell starts at the multiples of four. -/
theorem isAligned_iff_dvd (a : Address) : Address.isAligned a = true ↔ (4 : Int) ∣ a.toInt := by
  rw [Address.isAligned, beq_iff_eq, Int.dvd_iff_emod_eq_zero]

/-- The address that a text denotes is that of a bare number at which a cell starts. -/
theorem addressOfText?_eq_some_iff (text : String) (a : Address) :
    addressOfText? text = some a ↔ (Token.number a).Written text.toList ∧ (4 : Int) ∣ a.toInt := by
  rw [← Token.read?_eq_some_iff, ← isAligned_iff_dvd, addressOfText?, Token.ofText?, Option.bind_eq_some_iff]
  constructor
  · rintro ⟨token, htoken, haddress⟩
    cases token with
    | number b =>
      rw [Token.address?] at haddress
      split at haddress
      · rename_i hb
        obtain rfl := Option.some.inj haddress
        exact ⟨htoken, hb⟩
      · exact absurd haddress (by simp)
    | register | immediate | indirect => exact absurd haddress (by simp [Token.address?])
  · rintro ⟨htoken, ha⟩
    exact ⟨.number a, htoken, if_pos ha⟩

/-- **Which texts are tokens.** A text is read as a token exactly if it is written so, and so it is when
the longest lexeme in front of it is asked for. No text is written as two tokens, zeros in front of
digits do not change what they denote, and the text of an address is a bare number that is a multiple
of four. -/
theorem Token.ofText?_exact {scan : Scanner} (hscan : scan.LongestMatch) (text : String) :
    scan.token? text.toList = ofText? text ∧
    (∀ token, ofText? text = some token ↔ token.Written text.toList) ∧
    (ofText? text = none ↔ ∀ token : Token, ¬ token.Written text.toList) ∧
    (∀ token other : Token, token.Written text.toList → other.Written text.toList → token = other) ∧
    (∀ digits n, digits ≠ [] → (Numeral ('0' :: digits) n ↔ Numeral digits n)) ∧
    ∀ a, addressOfText? text = some a ↔
      (Token.number a).Written text.toList ∧ (4 : Int) ∣ a.toInt := by
  refine ⟨hscan.token?_eq_read? text.toList, ofText?_eq_some_iff text, ?_,
    fun _ _ h hother => h.unique hother, fun _ n hne => Decimal.numeral_zero_cons_iff hne n,
    addressOfText?_eq_some_iff text⟩
  rw [Option.eq_none_iff_forall_ne_some]
  exact forall_congr' fun token => not_congr (ofText?_eq_some_iff text token)

/-- The scanner stops in front of a parenthesis that is not closed, and such a text is no token. -/
theorem Token.ofText?_exact_parentheses :
    Scanner.exhaustive.LongestMatch ∧
    Scanner.exhaustive "12(R3".toList = some (.number, "12".toList) ∧
    ofText? "12(R3" = none ∧
    (Token.indirect (-12) 7).Written "-0012(R007)".toList ∧
    ofText? "-0012(R007)" = some (.indirect (-12) 7) := by
  have hopen := (ofText?_exact Scanner.longestMatch_exhaustive "12(R3").1
  have hclosed := (ofText?_exact Scanner.longestMatch_exhaustive "-0012(R007)").2.1 (.indirect (-12) 7)
  have hread : ofText? "-0012(R007)" = some (.indirect (-12) 7) := by decide
  refine ⟨Scanner.longestMatch_exhaustive, by decide, ?_, hclosed.1 hread, hread⟩
  rw [← hopen]
  decide

end Assembly

end Dlx
