/-!
# Binary formats

A binary format writes a value as bytes and reads a value from the front of a sequence of bytes,
leaving the rest. The formats of this module are the building blocks: numbers of fixed width, least
significant byte first; truth values; texts with their length in front; and the members of a list,
written as their index.
-/

namespace Dlx

/-- Reads a value from the front of bytes and leaves the rest. -/
abbrev Reader := StateT (List UInt8) Option

/-- A type whose values can be written as bytes and read from the front of bytes. -/
class Binary (α : Type) where
  encode : α → List UInt8
  decoder : Reader α

namespace Binary

/-- The reader of a type. -/
def reader (α : Type) [Binary α] : Reader α :=
  decoder

/-- The value at the front of bytes and the rest. -/
def decode? {α : Type} [Binary α] (bytes : List UInt8) : Option (α × List UInt8) :=
  (reader α).run bytes

/-- The value at the front of bytes, whatever follows. -/
def valueOf? {α : Type} [Binary α] (bytes : List UInt8) : Option α :=
  (decode? bytes).map Prod.fst

/-! ## §1 Numbers -/

/-- The bytes of a number, least significant first, in a given width. -/
def littleEndian : Nat → Nat → List UInt8
  | 0, _ => []
  | width + 1, n => UInt8.ofNat (n % 256) :: littleEndian width (n / 256)

/-- The number that bytes denote, least significant first. -/
def ofLittleEndian (bytes : List UInt8) : Nat :=
  bytes.foldr (fun b n => b.toNat + 256 * n) 0

/-- Reads a given number of bytes. -/
def take? (width : Nat) : Reader (List UInt8) := fun bytes =>
  if width ≤ bytes.length then some (bytes.splitAt width) else none

/-- Reads a number of a given width. -/
def number? (width : Nat) : Reader Nat := do
  return ofLittleEndian (← take? width)

theorem length_littleEndian (width n : Nat) : (littleEndian width n).length = width := by
  induction width generalizing n with
  | zero => rfl
  | succ width ih => simp [littleEndian, ih]

/-- **A number that fits its width is read back.** -/
theorem ofLittleEndian_littleEndian (width n : Nat) (h : n < Nat.pow 256 width) :
    ofLittleEndian (littleEndian width n) = n := by
  induction width generalizing n with
  | zero =>
    have hn : n = 0 := by simpa using h
    simp [littleEndian, ofLittleEndian, hn]
  | succ width ih =>
    have hdiv : n / 256 < Nat.pow 256 width := by
      rw [Nat.div_lt_iff_lt_mul (by omega)]
      simpa [Nat.pow_succ] using h
    have hrest := ih (n / 256) hdiv
    simp only [ofLittleEndian] at hrest
    simp only [littleEndian, ofLittleEndian, List.foldr_cons, hrest, UInt8.toNat_ofNat']
    omega

/-- Reading takes just the bytes that were written. -/
theorem take?_append (front rest : List UInt8) :
    take? front.length (front ++ rest) = some (front, rest) := by
  simp [take?]

/-! ## §2 Building blocks -/

/-- Reads one byte. -/
def byte? : Reader UInt8 := fun bytes =>
  match bytes with
  | b :: rest => some (b, rest)
  | [] => none

instance : Binary UInt8 where
  encode b := [b]
  decoder := byte?

instance : Binary UInt32 where
  encode w := littleEndian 4 w.toNat
  decoder := do return UInt32.ofNat (← number? 4)

instance : Binary Int32 where
  encode w := encode w.toUInt32
  decoder := do return (← reader UInt32).toInt32

/-- The truth value of a byte. -/
def truth? : UInt8 → Option Bool
  | 0 => some false
  | 1 => some true
  | _ => none

/-- A truth value is one byte, zero or one. -/
instance : Binary Bool where
  encode b := [if b then 1 else 0]
  decoder := do truth? (← byte?)

/-- The text that bytes denote. -/
def text? (bytes : List UInt8) : Option String :=
  String.fromUTF8? ⟨bytes.toArray⟩

/-- A text is its number of bytes, in eight bytes, and then its bytes. -/
instance : Binary String where
  encode s := littleEndian 8 s.utf8ByteSize ++ s.toByteArray.data.toList
  decoder := do
    let size ← number? 8
    let bytes ← take? size
    text? bytes

/-- Writes a member of a list as its index. -/
def encodeIndex {α : Type} [BEq α] (members : List α) (a : α) : List UInt8 :=
  littleEndian 4 (members.idxOf a)

/-- Reads a member of a list from its index. -/
def decodeIndex? {α : Type} (members : List α) : Reader α := do
  members[← number? 4]?

end Binary

end Dlx
