import Dlx.Assembly.Flaw
import Dlx.Text.Lines

/-!
# The fields of a source line

A source line is cut into a label, a breakpoint mark, the name of an opcode and its arguments, each
of which may be missing:

`label: > OPCODE first, second, third // comment`

The comment is cut off first, then the label at the first colon, then the mark, then the opcode at
the first blank; what remains is cut into arguments at its commas. Whether the opcode exists and what
its arguments mean is no concern of this module.
-/

namespace Dlx.Assembly

/-! ## §1 Comments -/

/-- Collects characters up to two slashes, in reverse. -/
def collectCode (acc : List Char) : List Char → List Char
  | '/' :: '/' :: _ => acc
  | c :: cs => collectCode (c :: acc) cs
  | [] => acc

/-- The characters before the first two slashes in a row. -/
def beforeComment (cs : List Char) : List Char :=
  (collectCode [] cs).reverse

/-- A line without its comment and without the blanks around what is left. -/
def code (cs : List Char) : List Char :=
  Text.trim (beforeComment cs)

/-- A character that starts no comment is collected. -/
theorem collectCode_cons (acc : List Char) (c : Char) (cs : List Char)
    (h : ¬ (c = '/' ∧ cs.head? = some '/')) :
    collectCode acc (c :: cs) = collectCode (c :: acc) cs := by
  rw [collectCode]
  rintro _ rfl rfl
  exact h ⟨rfl, rfl⟩

/-- What is collected already is kept behind what is collected next. -/
theorem collectCode_eq_append (acc cs : List Char) :
    collectCode acc cs = collectCode [] cs ++ acc := by
  induction cs generalizing acc with
  | nil => simp [collectCode]
  | cons c cs ih =>
    by_cases h : c = '/' ∧ cs.head? = some '/'
    · obtain ⟨rfl, hslash⟩ := h
      obtain ⟨rest, rfl⟩ := List.head?_eq_some_iff.1 hslash
      simp [collectCode]
    · rw [collectCode_cons acc c cs h, collectCode_cons [] c cs h, ih (c :: acc), ih [c]]
      simp

@[simp]
theorem beforeComment_nil : beforeComment [] = [] := rfl

@[simp]
theorem beforeComment_slashes (cs : List Char) : beforeComment ('/' :: '/' :: cs) = [] := rfl

/-- A character that starts no comment stays. -/
theorem beforeComment_cons (c : Char) (cs : List Char)
    (h : ¬ (c = '/' ∧ cs.head? = some '/')) :
    beforeComment (c :: cs) = c :: beforeComment cs := by
  rw [beforeComment, collectCode_cons [] c cs h, collectCode_eq_append]
  simp [beforeComment]

/-! ## §2 Fields -/

/-- A line cut into its fields. -/
structure Fields where
  label : Option String
  breakpoint : Bool
  opcode : Option String
  arguments : List String
  deriving DecidableEq, Repr

/-- The label in front of a line and the rest of the line. -/
def takeLabel (cs : List Char) : Except Flaw (Option String × List Char) :=
  match Text.cut? ':' cs with
  | none => .ok (none, cs)
  | some (label, rest) =>
    if label = [] then .error .emptyLabel
    else if label.any Text.isBlank then .error (.labelWithBlank (String.ofList label))
    else .ok (some (String.ofList label), Text.trimStart rest)

/-- The breakpoint mark in front of a line and the rest of the line. -/
def takeMark : List Char → Bool × List Char
  | '>' :: rest => (true, Text.trimStart rest)
  | cs => (false, cs)

/-- The arguments behind an opcode. -/
def splitArguments (cs : List Char) : List String :=
  match Text.trim cs with
  | [] => []
  | arguments => (Text.splitOn ',' arguments).map fun a => String.ofList (Text.trim a)

/-- The opcode in front of a line and its arguments. -/
def takeOpcode (cs : List Char) : Option String × List String :=
  match cs with
  | [] => (none, [])
  | _ =>
    (some (String.ofList (cs.takeWhile (!Text.isBlank ·))),
      splitArguments (cs.dropWhile (!Text.isBlank ·)))

/-- The fields of a line. Since the label is cut off at the first colon of the whole line, a colon in
an argument is harmless only behind a label. -/
def Fields.ofLine (cs : List Char) : Except Flaw Fields := do
  let (label, rest) ← takeLabel (code cs)
  let (breakpoint, rest) := takeMark rest
  let (opcode, arguments) := takeOpcode rest
  return { label, breakpoint, opcode, arguments }

end Dlx.Assembly
