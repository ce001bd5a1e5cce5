import Dlx.Instruction
import Std.Data.TreeMap

/-!
# Programs

A program is a table of lines beside an index of its labels. The index is kept in step with the
table: adding a line enters its label, a label that is taken is refused, and breakpoints do not touch
it. So a label resolves to a line exactly if that line carries it.

A line is written as its label and a colon, a `>` if it has a breakpoint, and its instruction, with
single spaces between the parts; a program is written with a line feed behind every line.
-/

namespace Dlx

/-! ## §1 Lines -/

/-- One line of a program. Without an instruction it is blank, and running it does nothing. -/
structure Line where
  label : Option String
  breakpoint : Bool
  instruction : Option Instruction
  deriving DecidableEq, Repr

namespace Line

/-- The line with no parts. -/
def blank : Line :=
  ⟨none, false, none⟩

/-- The line has no instruction. -/
def isBlank (l : Line) : Bool :=
  l.instruction.isNone

/-- The written parts of a line, from left to right. -/
def parts (l : Line) : List String :=
  (l.label.map (· ++ ":")).toList ++ (if l.breakpoint then [">"] else []) ++
    (l.instruction.map Instruction.text).toList

/-- The text of a line. -/
def text (l : Line) : String :=
  " ".intercalate l.parts

end Line

/-! ## §2 Programs -/

/-- Lines, and the index of their labels. -/
structure Program where
  lines : Array Line
  labels : Std.TreeMap String Nat

namespace Program

/-- The program without lines. -/
def empty : Program :=
  ⟨#[], {}⟩

instance : Inhabited Program := ⟨empty⟩

/-- The number of lines. -/
def size (p : Program) : Nat :=
  p.lines.size

/-- The line at an index. -/
def line? (p : Program) (i : Nat) : Option Line :=
  p.lines[i]?

/-- The instruction at an index, if there is such a line and it is not blank. -/
def instruction? (p : Program) (i : Nat) : Option Instruction :=
  (p.line? i).bind Line.instruction

/-- The index of the line that carries a label. -/
def resolve? (p : Program) (label : String) : Option Nat :=
  p.labels[label]?

/-- The index of labels after a line has been put at an index. -/
def enter (labels : Std.TreeMap String Nat) (i : Nat) (l : Line) : Std.TreeMap String Nat :=
  match l.label with
  | some label => labels.insert label i
  | none => labels

/-- Adds a line at the end and enters its label. -/
def append : Program → Line → Program
  | ⟨lines, labels⟩, l =>
    let labels := enter labels lines.size l
    ⟨lines.push l, labels⟩

/-- Adds a line at the end. If another line carries its label already, the index of that line is
returned and nothing is added. -/
def push (p : Program) (l : Line) : Except Nat Program :=
  match l.label.bind p.resolve? with
  | some earlier => .error earlier
  | none => .ok (p.append l)

/-- Adds a line at the end, without its label if another line carries it already. -/
def add (p : Program) (l : Line) : Program :=
  p.append { l with label := l.label.filter fun label => (p.resolve? label).isNone }

@[simp]
theorem size_append (p : Program) (l : Line) : (p.append l).size = p.size + 1 := by
  simp [append, size]

/-- The new line has the index that the size was. -/
theorem line?_append (p : Program) (l : Line) (i : Nat) :
    (p.append l).line? i = if i = p.size then some l else p.line? i :=
  Array.getElem?_push

/-- The new line's label resolves to it. -/
theorem resolve?_append (p : Program) (l : Line) (label : String) :
    (p.append l).resolve? label = if l.label = some label then some p.size else p.resolve? label := by
  simp only [append, enter, resolve?, size]
  cases h : l.label with
  | none => simp
  | some own =>
    simp only [Std.TreeMap.getElem?_insert, Std.LawfulEqCmp.compare_eq_iff_eq, Option.some.injEq]

/-- The program of a list of lines, in which a label counts where it occurs first. -/
def ofLines (ls : List Line) : Program :=
  ls.foldl add empty

/-! ## §3 Breakpoints -/

/-- Sets or clears the breakpoint of a line, if there is such a line. -/
def setBreakpoint? (p : Program) (i : Nat) (on : Bool) : Option Program :=
  (p.line? i).map fun l => { p with lines := p.lines.setIfInBounds i { l with breakpoint := on } }

/-- Turns the breakpoint of a line over, if there is such a line; the result says whether it is set
now. -/
def toggleBreakpoint? (p : Program) (i : Nat) : Option (Bool × Program) := do
  let l ← p.line? i
  let p' ← p.setBreakpoint? i (!l.breakpoint)
  return (!l.breakpoint, p')

/-- The indices of the lines with a breakpoint, ascending. -/
def breakpoints (p : Program) : List Nat :=
  p.lines.toList.zipIdx.filterMap fun entry => if entry.1.breakpoint then some entry.2 else none

/-! ## §4 Views -/

/-- The labels with the indices of their lines, in the order of the labels' code points. -/
def labelList (p : Program) : List (String × Nat) :=
  p.labels.toList

/-- The number of lines that are not blank. -/
def instructionCount (p : Program) : Nat :=
  p.lines.toList.countP (!·.isBlank)

/-- The index of the first line whose instruction no mnemonic can write, and what is wrong there. -/
def firstFlaw? (p : Program) : Option (Nat × NoImmediateForm) :=
  p.lines.toList.zipIdx.findSome? fun entry =>
    match entry.1.instruction.map Instruction.check with
    | some (.error e) => some (entry.2, e)
    | _ => none

/-- The text of a program. -/
def text (p : Program) : String :=
  String.join (p.lines.toList.map (·.text ++ "\n"))

/-- The same lines, and the same labels at the same lines. -/
def same (p q : Program) : Bool :=
  p.lines == q.lines && p.labelList == q.labelList

end Program

end Dlx
