import Dlx.CommandLine.Outcome

/-!
# How the program is called

The texts for a command line that is wrong or that asks for information.
-/

namespace Dlx.Invocation

/-- The name and the version of the program. -/
def versionText : String :=
  "dlx 0.1.0\n"

/-- The one-line summary of the arguments. -/
def usageText : String :=
  "Usage: dlx [OPTIONS] <INPUT_FILE>\n"

/-- The description of all arguments. -/
def helpText : String :=
  "Run DLX assembly programs from the command line\n\n" ++ usageText ++
  "\nArguments:\n" ++
  "  <INPUT_FILE>  DLX source file to run\n" ++
  "\nOptions:\n" ++
  "      --max-steps <N>        Maximum number of lines interpreted per run [default: 10000]\n" ++
  "      --max-jumps <N>        Maximum number of jumps along one line pair per run " ++
    "[default: 1000]\n" ++
  "      --step                 Single-step the program and print every executed line\n" ++
  "      --stop-at-breakpoints  Stop at breakpoints instead of resuming\n" ++
  "      --set <REG=VALUE>      Preset a register, e.g. --set R1=5\n" ++
  "      --mem <ADDR=VALUE>     Preset a memory word, e.g. --mem 1000=7\n" ++
  "  -v, --verbose...           Increase log verbosity (-v, -vv, -vvv)\n" ++
  "  -h, --help                 Print help\n" ++
  "  -V, --version              Print version\n"

/-- The wording of a refusal; a request for information has none. -/
def Refusal.message? : Refusal → Option String
  | .missingFile => some "the file to run is missing"
  | .unknownArgument => some "there is an unexpected argument"
  | .missingValue => some "an argument lacks its value"
  | .badValue => some "an argument has an invalid value"
  | .repeated => some "an argument cannot be used multiple times"
  | .unexpectedValue => some "an argument takes no value"
  | .help | .version => none

/-- The outcome of a command line that is no invocation. -/
def Refusal.outcome (r : Refusal) : Outcome :=
  match r with
  | .help => ⟨0, helpText, ""⟩
  | .version => ⟨0, versionText, ""⟩
  | r => ⟨2, "", "error: " ++ r.message?.getD "" ++ "\n\n" ++ usageText⟩

end Dlx.Invocation
