import Dlx.Machine.Run

/-!
# Commands

Everything that a user can ask of a machine, as data: a history of a machine is a list of commands.
-/

namespace Dlx

/-- A request to a machine. -/
inductive Command where
  | loadSource (source : String)
  | load (p : Program)
  | run
  | step
  | goto (line : Nat)
  | configure (b : Budget)
  | setBreakpoint (line : Nat) (on : Bool)
  | toggleBreakpoint (line : Nat)
  | readRegister (text : String)
  | writeRegister (text : String) (w : Word)
  | eraseRegister (text : String)
  | resetRegisters
  | readMemory (a : Address)
  | writeMemory (a : Address) (w : Word)
  | eraseMemory (a : Address)
  | readMemoryAt (text : String)
  | writeMemoryAt (text : String) (w : Word)
  | resetMemory
  | reset

/-- The answer to a request. -/
inductive Reply where
  | done
  | stop (s : Stop)
  | tick (t : Tick)
  | breakpoint (on : Bool)
  | value (w : Option Word)
  deriving DecidableEq, Repr

/-- The operation that a request asks for. -/
def Command.action : Command → Machine.Action Reply
  | .loadSource source => Machine.loadSource source *> return .done
  | .load p => Machine.load p *> return .done
  | .run => .stop <$> Machine.run
  | .step => .tick <$> Machine.step
  | .goto line => Machine.goto line *> return .done
  | .configure b => Machine.configure b *> return .done
  | .setBreakpoint line on => Machine.setBreakpoint line on *> return .done
  | .toggleBreakpoint line => .breakpoint <$> Machine.toggleBreakpoint line
  | .readRegister text => .value <$> Machine.readRegister text
  | .writeRegister text w => Machine.writeRegister text w *> return .done
  | .eraseRegister text => Machine.eraseRegister text *> return .done
  | .resetRegisters => Machine.resetRegisters *> return .done
  | .readMemory a => .value <$> Machine.readMemory a
  | .writeMemory a w => Machine.writeMemory a w *> return .done
  | .eraseMemory a => Machine.eraseMemory a *> return .done
  | .readMemoryAt text => .value <$> Machine.readMemoryAt text
  | .writeMemoryAt text w => Machine.writeMemoryAt text w *> return .done
  | .resetMemory => Machine.resetMemory *> return .done
  | .reset => Machine.reset *> return .done

/-- The answer of a machine to a request, and the machine afterwards. -/
def Machine.obey (m : Machine) (c : Command) : Except MachineError Reply × Machine :=
  m.perform c.action

end Dlx
