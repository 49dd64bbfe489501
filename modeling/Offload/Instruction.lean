import Offload.Opcode
import Offload.Text

/-!
The instructions of the bytecode. `wait` is the dependency list whose events a command waits for.
-/

namespace Offload

inductive Instruction
  | begin (slots tasks lists : Nat)
  | context (device : Nat)
  | launch (task device : Nat) (wait : Option Nat) (offset threads : Nat)
  | streamIn (object offset length : Nat) (wait : Option Nat)
  | streamOut (object offset length : Nat) (wait : Option Nat)
  | streamOutBlocking (object offset length : Nat) (wait : Option Nat)
  | addDep (list : Nat)
  | barrier (wait : Option Nat)
  | marker (wait : Option Nat)
  | finish
  deriving DecidableEq, Repr

namespace Instruction

def opcode : Instruction → Opcode
  | .begin .. => .begin
  | .context .. => .context
  | .launch .. => .launch
  | .streamIn .. => .streamIn
  | .streamOut .. => .streamOut
  | .streamOutBlocking .. => .streamOutBlocking
  | .addDep .. => .addDep
  | .barrier .. => .barrier
  | .marker .. => .marker
  | .finish => .finish

def wait? : Instruction → Option Nat
  | .launch _ _ wait _ _ => wait
  | .streamIn _ _ _ wait | .streamOut _ _ _ wait | .streamOutBlocking _ _ _ wait => wait
  | .barrier wait | .marker wait => wait
  | _ => none

/-- The dependency list that the instruction names, to wait for or to append to. -/
def list? : Instruction → Option Nat
  | .addDep list => some list
  | i => i.wait?

def waitLabel : Option Nat → String
  | none => "-"
  | some list => s!"L{list}"

def transferLabel (op : Opcode) (object offset length : Nat) (wait : Option Nat) : String :=
  s!"{op.mnemonic} object={object} offset={offset} length={length} wait={waitLabel wait}"

def label : Instruction → String
  | .begin slots tasks lists => s!"BEGIN slots={slots} tasks={tasks} lists={lists}"
  | .context device => s!"CONTEXT device={device}"
  | .launch task device wait offset threads =>
    s!"LAUNCH task={task} device={device} wait={waitLabel wait} offset={offset} threads={threads}"
  | .streamIn object offset length wait => transferLabel .streamIn object offset length wait
  | .streamOut object offset length wait => transferLabel .streamOut object offset length wait
  | .streamOutBlocking object offset length wait =>
    transferLabel .streamOutBlocking object offset length wait
  | .addDep list => s!"ADD_DEP L{list}"
  | .barrier wait => s!"BARRIER wait={waitLabel wait}"
  | .marker wait => s!"MARKER wait={waitLabel wait}"
  | .finish => "END"

end Instruction
end Offload
