import Dlx.Binary.Instruction
import Dlx.Machine.Command
import Dlx.Main
import Dlx.Proofs.Binary.Instruction
import Dlx.Proofs.Text
import Dlx.Proofs.Decimal
import Dlx.Proofs.Program.Editing
import Dlx.Proofs.Alu
import Dlx.Proofs.Assembly.Fields
import Dlx.Proofs.Assembly.Grammar
import Dlx.Proofs.Assembly.Layout
import Dlx.Proofs.Assembly.Token
import Dlx.Proofs.Assembly.Operand
import Dlx.Proofs.Assembly.Verdict
import Dlx.Proofs.Assembly.RegisterName
import Dlx.Proofs.Assembly.Assembled
import Dlx.Proofs.Assembly.Reassembly
import Dlx.Proofs.Assembly.Image
import Dlx.Proofs.Assembly.Reference
import Dlx.Proofs.Machine.Operations
import Dlx.Proofs.Machine.Lockstep
import Dlx.Proofs.Machine.Budget
import Dlx.Proofs.Machine.Invariant
import Dlx.Proofs.Machine.Atomicity
import Dlx.Proofs.Machine.Runaway
import Dlx.Proofs.Machine.LoopFree
import Dlx.Proofs.Machine.Cells
import Dlx.Proofs.Machine.Filling
import Dlx.Proofs.Machine.Repair
import Dlx.Proofs.Machine.Loading
import Dlx.Proofs.Machine.Storage
import Dlx.Proofs.Machine.Calls
import Dlx.Proofs.Machine.Frame
import Dlx.Proofs.Machine.Tally
import Dlx.Proofs.Machine.Faults
import Dlx.Proofs.Session.Resumption
import Dlx.Proofs.Session.Stepping
import Dlx.Proofs.Session.Lines
import Dlx.Proofs.Session.Listing
import Dlx.Proofs.CommandLine.Presets
