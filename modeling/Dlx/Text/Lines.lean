import Dlx.Text.Blank

/-!
# Cutting text

Text is cut in three ways: into lines, at every occurrence of a separator, and at the first
occurrence of one. Nothing is interpreted here; the pieces are handed on as lists of characters.

A line ends at a line feed. One carriage return directly before that line feed belongs to the line
end, and the last line may lack its line feed, in which case a carriage return at its end stays.
There is no line after a final line feed.
-/

namespace Dlx.Text

/-! ## §1 At every separator -/

/-- Puts one character in front of a text that is cut already. -/
def consPiece (separator c : Char) (pieces : List (List Char)) : List (List Char) :=
  if c = separator then [] :: pieces
  else (c :: pieces.headD []) :: pieces.tail

/-- The pieces of a text between the occurrences of a separator; there is always at least one. -/
def splitOn (separator : Char) (cs : List Char) : List (List Char) :=
  cs.foldr (consPiece separator) [[]]

@[simp]
theorem splitOn_nil (separator : Char) : splitOn separator [] = [[]] := rfl

theorem splitOn_cons (separator c : Char) (cs : List Char) :
    splitOn separator (c :: cs) = consPiece separator c (splitOn separator cs) := rfl

theorem splitOn_ne_nil (separator : Char) (cs : List Char) : splitOn separator cs ≠ [] := by
  cases cs with
  | nil => simp
  | cons c cs => rw [splitOn_cons, consPiece]; split <;> simp

/-! ## §2 At the first separator -/

/-- The text before the first occurrence of a separator and the text after it, if it occurs. -/
def cut? (separator : Char) (cs : List Char) : Option (List Char × List Char) :=
  match cs.dropWhile (· != separator) with
  | [] => none
  | _ :: rest => some (cs.takeWhile (· != separator), rest)

/-! ## §3 Lines -/

/-- Drops one carriage return at the end. -/
def dropReturn (line : List Char) : List Char :=
  if line.getLast? = some '\r' then line.dropLast else line

/-- The lines of a text. -/
def lines (cs : List Char) : List (List Char) :=
  let pieces := splitOn '\n' cs
  let last := pieces.getLastD []
  pieces.dropLast.map dropReturn ++ if last = [] then [] else [last]

@[simp]
theorem lines_nil : lines [] = [] := rfl

/-! ## §4 Columns -/

/-- Fills a text up to a width with spaces in front. -/
def padStart (width : Nat) (text : String) : String :=
  String.ofList (List.replicate (width - text.length) ' ') ++ text

/-- Fills a text up to a width with spaces behind. -/
def padEnd (width : Nat) (text : String) : String :=
  text ++ String.ofList (List.replicate (width - text.length) ' ')

end Dlx.Text
