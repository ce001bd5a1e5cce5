import Dlx.CommandLine.Usage

/-!
# The command line program

Reads the file that the command line names, and writes the outcome. Everything that can be said about
the program is said about `Dlx.Invocation.read` and `Dlx.Invocation.outcome`.
-/

namespace Dlx.Invocation

/-- The contents of a file, or why there are none. -/
def contentsOf (file : String) : IO (Except Unreadable String) := do
  try
    match String.fromUTF8? (← IO.FS.readBinFile file) with
    | some text => return .ok text
    | none => return .error .notText
  catch
    | .noFileOrDirectory .. => return .error .notFound
    | e => return .error (.other (toString e))

/-- Writes an outcome and gives its exit code. -/
def finish (o : Outcome) : IO UInt32 := do
  (← IO.getStdout).putStr o.output
  (← IO.getStderr).putStr o.errors
  return o.exitCode.toUInt32

/-- Gives a session ever more runs until it ends. -/
partial def settle (i : Invocation) (source : Except Unreadable String) (runs : Nat) :
    IO Outcome :=
  match i.outcome runs source with
  | some o => return o
  | none => settle i source (2 * runs)

end Dlx.Invocation

open Dlx in
/-- Runs the program. -/
def main (arguments : List String) : IO UInt32 := do
  match Invocation.read arguments with
  | .error refusal => Invocation.finish refusal.outcome
  | .ok i => Invocation.finish (← i.settle (← Invocation.contentsOf i.file) 1000000)
