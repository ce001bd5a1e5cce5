import Dlx.Text.Lines
import Dlx.Word

/-!
# Assignments

An assignment `NAME=VALUE` gives a word to a register or to a memory cell before a program runs. Blanks
around the name and around the value do not matter; the value may carry either sign. Whether the name
denotes anything is no concern of this module.
-/

namespace Dlx

/-- A name and the word given to it. -/
structure Assignment where
  name : String
  value : Word
  deriving DecidableEq, Repr

namespace Assignment

/-- The ways in which a text is no assignment. -/
inductive Flaw where
  | noEquals (text : String)
  | noName (text : String)
  | badValue (text : String) (flaw : Decimal.Flaw)
  deriving DecidableEq, Repr

/-- The wording of a flaw. -/
def Flaw.message : Flaw → String
  | .noEquals text => "expected NAME=VALUE, got \"" ++ text ++ "\""
  | .noName text => "missing name in \"" ++ text ++ "\""
  | .badValue text flaw => "invalid value in \"" ++ text ++ "\": " ++ flaw.message

/-- Reads an assignment; it is cut at the first equals sign. -/
def read (text : String) : Except Flaw Assignment :=
  match Text.cut? '=' text.toList with
  | none => .error (.noEquals text)
  | some (name, value) =>
    if Text.trim name = [] then .error (.noName text)
    else
      match Decimal.within Word.least Word.greatest (Text.trim value) with
      | .ok i => .ok ⟨String.ofList (Text.trim name), Int32.ofInt i⟩
      | .error flaw => .error (.badValue text flaw)

end Assignment

end Dlx
