import Dlx.Binary.Format

/-!
# Exact formats

A binary format is *exact* if a value is read from its own bytes, whatever follows them, and from no other
bytes. This is one equivalence, and so a format that is put together from exact ones is shown to be exact
by rewriting its reader. What an exact format promises follows from the equivalence alone: values are
read back, every value has one form in bytes, and no value is read from bytes that are cut short.

- **§1** exact formats (`Exact`), and what they promise (`Faithful`)
- **§2** readers in a row
- **§3** numbers
- **§4** truth values and texts
- **§5** members of a list
-/

namespace Dlx.Binary

/-! ## §1 Exact formats -/

section

variable {α : Type} [Binary α] {Fits : α → Prop}

/-- A value that fits is read from its own bytes and leaves what follows them; nothing else is read. -/
def Exact (α : Type) [Binary α] (Fits : α → Prop) : Prop :=
  ∀ bytes a rest, (reader α).run bytes = some (a, rest) ↔ Fits a ∧ bytes = encode a ++ rest

/-- What a format promises of the values that fit: they are read back, whatever follows; bytes from which
a value is read begin with the bytes of that value; and a part of the bytes of a value, cut off before
their end, is refused. -/
structure Faithful (α : Type) [Binary α] (Fits : α → Prop) : Prop where
  lossless : ∀ a rest, Fits a → decode? (encode a ++ rest) = some (a, rest)
  canonical : ∀ bytes a rest, decode? bytes = some (a, rest) → Fits a ∧ bytes = encode a ++ rest
  prefixFree : ∀ a front, Fits a → front <+: encode a → front ≠ encode a →
    decode? (α := α) front = none

theorem Exact.run_append (h : Exact α Fits) {a : α} (ha : Fits a) (rest : List UInt8) :
    (reader α).run (encode a ++ rest) = some (a, rest) := by
  apply (h _ a rest).2
  exact ⟨ha, rfl⟩

/-- The bytes of one value do not begin with the bytes of another one. -/
theorem Exact.eq_of_append_eq (h : Exact α Fits) {a b : α} (ha : Fits a) (hb : Fits b)
    {rest tail : List UInt8} (hbytes : encode a ++ rest = encode b ++ tail) : a = b ∧ rest = tail := by
  have hread := h.run_append ha rest
  rw [hbytes, h.run_append hb tail] at hread
  obtain ⟨rfl, rfl⟩ := Prod.mk.inj (Option.some.inj hread)
  exact ⟨rfl, rfl⟩

/-- **An exact format keeps its promises.** -/
theorem Exact.faithful (h : Exact α Fits) : Faithful α Fits where
  lossless a rest ha := h.run_append ha rest
  canonical bytes a rest hread := (h bytes a rest).1 hread
  prefixFree a front ha hfront hne := by
    obtain ⟨missing, hmissing⟩ := hfront
    rw [Option.eq_none_iff_forall_ne_some]
    rintro ⟨b, rest⟩ hread
    -- What is read would be a value whose bytes stand in front of those of the other one.
    obtain ⟨hb, rfl⟩ := (h front b rest).1 hread
    have hbytes : encode a ++ [] = encode b ++ (rest ++ missing) := by
      rw [List.append_nil, ← List.append_assoc, hmissing]
    obtain ⟨rfl, hnil⟩ := h.eq_of_append_eq ha hb hbytes
    obtain ⟨rfl, -⟩ := List.append_eq_nil_iff.1 hnil.symm
    apply hne
    rw [List.append_nil]

end

/-! ## §2 Readers in a row -/

section

variable {α β : Type}

/-- The second reader goes on where the first one has stopped. -/
theorem run_bind_eq_some_iff (first : Reader α) (second : α → Reader β) (bytes rest : List UInt8) (b : β) :
    (first >>= second).run bytes = some (b, rest) ↔
      ∃ a middle, first.run bytes = some (a, middle) ∧ (second a).run middle = some (b, rest) := by
  rw [StateT.run_bind, Option.bind_eq_bind, Option.bind_eq_some_iff]
  exact Prod.exists

theorem run_pure_eq_some_iff (a b : α) (bytes rest : List UInt8) :
    (pure a : Reader α).run bytes = some (b, rest) ↔ b = a ∧ bytes = rest := by
  rw [StateT.run_pure]
  simp [pure, eq_comm]

/-- A result that is computed takes no bytes. -/
theorem run_liftM_eq_some_iff (result : Option α) (a : α) (bytes rest : List UInt8) :
    (liftM result : Reader α).run bytes = some (a, rest) ↔ result = some a ∧ bytes = rest := by
  show (StateT.lift result).run bytes = some (a, rest) ↔ _
  rw [StateT.run_lift]
  cases result with
  | none => simp
  | some b => simp [pure]

/-- Where the bytes of a value stand in front, its reader takes them. -/
theorem Exact.run_bind_append [Binary α] {Fits : α → Prop} (h : Exact α Fits) {a : α} (ha : Fits a)
    (second : α → Reader β) (rest : List UInt8) :
    (reader α >>= second).run (encode a ++ rest) = (second a).run rest := by
  rw [StateT.run_bind, h.run_append ha rest]
  rfl

/-- A format whose values are those of an exact one under other names is exact. -/
theorem Exact.map [Binary α] [Binary β] (h : Exact β fun _ => True) (write : α → β) (read : β → α)
    (hread : ∀ a, read (write a) = a) (hwrite : ∀ b, write (read b) = b)
    (hencode : ∀ a : α, encode a = encode (write a))
    (hdecoder : reader α = do return read (← reader β)) : Exact α fun _ => True := by
  intro bytes a rest
  simp only [hdecoder, run_bind_eq_some_iff, run_pure_eq_some_iff, h bytes, hencode, true_and]
  constructor
  · intro h
    obtain ⟨b, middle, rfl, rfl, rfl⟩ := h
    rw [hwrite]
  · intro h
    exact ⟨write a, rest, h, (hread a).symm, rfl⟩

end

/-! ## §3 Numbers -/

theorem ofLittleEndian_cons (b : UInt8) (bytes : List UInt8) :
    ofLittleEndian (b :: bytes) = b.toNat + 256 * ofLittleEndian bytes :=
  rfl

/-- Bytes denote a number that fits their width. -/
theorem ofLittleEndian_lt (bytes : List UInt8) : ofLittleEndian bytes < Nat.pow 256 bytes.length := by
  induction bytes with
  | nil => decide
  | cons b bytes ih =>
    have hb := b.toNat_lt
    have hpow : Nat.pow 256 (bytes.length + 1) = Nat.pow 256 bytes.length * 256 := rfl
    rw [ofLittleEndian_cons, List.length_cons, hpow]
    omega

/-- **Bytes are written back from the number that they denote.** -/
theorem littleEndian_ofLittleEndian (bytes : List UInt8) :
    littleEndian bytes.length (ofLittleEndian bytes) = bytes := by
  induction bytes with
  | nil => rfl
  | cons b bytes ih =>
    -- The first byte is the remainder, and the others denote the quotient.
    have hb := b.toNat_lt
    have hcons := ofLittleEndian_cons b bytes
    have hfirst : ofLittleEndian (b :: bytes) % 256 = b.toNat := by omega
    have hrest : ofLittleEndian (b :: bytes) / 256 = ofLittleEndian bytes := by omega
    rw [List.length_cons, littleEndian, hfirst, hrest, ih, UInt8.ofNat_toNat]

theorem run_take?_eq_some_iff (width : Nat) (bytes front rest : List UInt8) :
    (take? width).run bytes = some (front, rest) ↔ front.length = width ∧ bytes = front ++ rest := by
  constructor
  · intro h
    simp only [take?, StateT.run, List.splitAt_eq] at h
    split at h
    · rename_i hlength
      obtain ⟨rfl, rfl⟩ := Prod.mk.inj (Option.some.inj h)
      exact ⟨List.length_take_of_le hlength, (List.take_append_drop width bytes).symm⟩
    · exact absurd h (by simp)
  · rintro ⟨rfl, rfl⟩
    exact take?_append front rest

/-- A number that fits a width is read from its bytes in this width. -/
theorem run_number?_eq_some_iff (width : Nat) (bytes rest : List UInt8) (n : Nat) :
    (number? width).run bytes = some (n, rest) ↔
      n < Nat.pow 256 width ∧ bytes = littleEndian width n ++ rest := by
  simp only [number?, run_bind_eq_some_iff, run_pure_eq_some_iff, run_take?_eq_some_iff]
  constructor
  · intro h
    obtain ⟨front, middle, ⟨rfl, rfl⟩, rfl, rfl⟩ := h
    rw [littleEndian_ofLittleEndian]
    exact ⟨ofLittleEndian_lt front, rfl⟩
  · intro h
    have hn : ofLittleEndian (littleEndian width n) = n := ofLittleEndian_littleEndian width n h.1
    exact ⟨littleEndian width n, rest, ⟨length_littleEndian width n, h.2⟩, hn.symm, rfl⟩

theorem exact_uint8 : Exact UInt8 fun _ => True := by
  intro bytes b rest
  rw [true_and]
  show byte? bytes = some (b, rest) ↔ bytes = [b] ++ rest
  cases bytes with
  | nil => simp [byte?]
  | cons c bytes => simp [byte?]

theorem exact_uint32 : Exact UInt32 fun _ => True := by
  intro bytes w rest
  show (do return UInt32.ofNat (← number? 4) : Reader UInt32).run bytes = _ ↔
    True ∧ bytes = littleEndian 4 w.toNat ++ rest
  simp only [run_bind_eq_some_iff, run_pure_eq_some_iff, run_number?_eq_some_iff, true_and]
  constructor
  · intro h
    obtain ⟨n, middle, ⟨hn, rfl⟩, rfl, rfl⟩ := h
    rw [UInt32.toNat_ofNat_of_lt' hn]
  · intro h
    exact ⟨w.toNat, rest, ⟨w.toNat_lt, h⟩, UInt32.ofNat_toNat.symm, rfl⟩

/-- A word is written as the number with the same bits. -/
theorem exact_int32 : Exact Int32 fun _ => True :=
  exact_uint32.map Int32.toUInt32 UInt32.toInt32 Int32.toInt32_toUInt32 UInt32.toUInt32_toInt32
    (fun _ => rfl) rfl

/-! ## §4 Truth values and texts -/

theorem truth?_eq_some_iff (byte : UInt8) (b : Bool) :
    truth? byte = some b ↔ byte = if b then 1 else 0 := by
  unfold truth?
  split
  · cases b <;> decide
  · cases b <;> decide
  · rename_i hzero hone
    cases b with
    | false => simpa using hzero
    | true => simpa using hone

theorem exact_bool : Exact Bool fun _ => True := by
  intro bytes b rest
  show (do truth? (← reader UInt8) : Reader Bool).run bytes = _ ↔
    True ∧ bytes = encode (if b then (1 : UInt8) else 0) ++ rest
  simp only [run_bind_eq_some_iff, run_liftM_eq_some_iff, exact_uint8 bytes, truth?_eq_some_iff,
    true_and]
  constructor
  · intro h
    obtain ⟨byte, middle, rfl, rfl, rfl⟩ := h
    rfl
  · intro h
    exact ⟨_, rest, h, rfl, rfl⟩

/-- A text is denoted by its own bytes only. -/
theorem text?_eq_some_iff (bytes : List UInt8) (s : String) :
    text? bytes = some s ↔ bytes = s.toByteArray.data.toList := by
  unfold text? String.fromUTF8?
  constructor
  · intro h
    split at h
    · obtain rfl := Option.some.inj h
      rfl
    · exact absurd h (by simp)
  · rintro rfl
    exact dif_pos s.isValidUTF8

/-- The length of a text fits into the eight bytes in front of it, as it does for every text that a memory
with 64-bit addresses can hold. -/
def TextFits (s : String) : Prop :=
  s.utf8ByteSize < UInt64.size

theorem exact_string : Exact String TextFits := by
  intro bytes s rest
  show (do
      let size ← number? 8
      let bytes ← take? size
      text? bytes : Reader String).run bytes = _ ↔
    s.utf8ByteSize < Nat.pow 256 8 ∧
      bytes = littleEndian 8 s.utf8ByteSize ++ s.toByteArray.data.toList ++ rest
  simp only [run_bind_eq_some_iff, run_liftM_eq_some_iff, run_number?_eq_some_iff,
    run_take?_eq_some_iff, text?_eq_some_iff]
  rw [List.append_assoc]
  constructor
  · intro h
    -- The length that has been read is the number of bytes that have been taken.
    obtain ⟨size, middle, ⟨hsize, rfl⟩, text, _, ⟨rfl, rfl⟩, rfl, rfl⟩ := h
    exact ⟨hsize, rfl⟩
  · intro h
    exact ⟨s.utf8ByteSize, s.toByteArray.data.toList ++ rest, h, s.toByteArray.data.toList, rest,
      ⟨rfl, rfl⟩, rfl, rfl⟩

/-! ## §5 Members of a list -/

/-- **A member of a list is read from its index.** The list has every member once, and its indices fit into
four bytes. -/
theorem run_decodeIndex?_eq_some_iff {α : Type} [BEq α] [LawfulBEq α] {members : List α}
    (hall : ∀ a, a ∈ members) (hnodup : members.Nodup) (hlength : members.length ≤ UInt32.size)
    (bytes rest : List UInt8) (a : α) :
    (decodeIndex? members).run bytes = some (a, rest) ↔ bytes = encodeIndex members a ++ rest := by
  simp only [decodeIndex?, encodeIndex, run_bind_eq_some_iff, run_liftM_eq_some_iff,
    run_number?_eq_some_iff]
  constructor
  · intro h
    obtain ⟨i, middle, ⟨-, rfl⟩, hi, rfl⟩ := h
    -- The member stands at this index and at no other one.
    obtain ⟨hlt, rfl⟩ := List.getElem?_eq_some_iff.1 hi
    rw [hnodup.idxOf_getElem i hlt]
  · intro h
    have hlt : members.idxOf a < members.length := List.idxOf_lt_length_iff.2 (hall a)
    have hmember : members[members.idxOf a]? = some a := by
      rw [List.getElem?_eq_getElem hlt, List.getElem_idxOf hlt]
    exact ⟨members.idxOf a, rest, ⟨Nat.lt_of_lt_of_le hlt hlength, h⟩, hmember, rfl⟩

/-- A format that writes the index of a member is exact. -/
theorem exact_of_members {α : Type} [BEq α] [LawfulBEq α] [Binary α] {members : List α}
    (hencode : ∀ a : α, encode a = encodeIndex members a) (hreader : reader α = decodeIndex? members)
    (hall : ∀ a, a ∈ members) (hnodup : members.Nodup) (hlength : members.length ≤ UInt32.size) :
    Exact α fun _ => True := by
  intro bytes a rest
  rw [hreader, hencode, true_and]
  exact run_decodeIndex?_eq_some_iff hall hnodup hlength bytes rest a

end Dlx.Binary
