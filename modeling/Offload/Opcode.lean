/-!
The ten operations of the bytecode, with the byte that opens each and the name that listings print.
-/

namespace Offload

inductive Opcode
  | begin
  | context
  | launch
  | streamIn
  | streamOut
  | streamOutBlocking
  | addDep
  | barrier
  | marker
  | finish
  deriving DecidableEq, Repr

namespace Opcode

def all : List Opcode :=
  [.begin, .context, .launch, .streamIn, .streamOut, .streamOutBlocking, .addDep, .barrier, .marker,
    .finish]

def byte : Opcode → UInt8
  | .begin => 1
  | .context => 2
  | .launch => 3
  | .streamIn => 4
  | .streamOut => 5
  | .streamOutBlocking => 6
  | .addDep => 7
  | .barrier => 8
  | .marker => 9
  | .finish => 10

def ofByte? (b : UInt8) : Option Opcode :=
  all.find? (·.byte == b)

/-- The name in listings and error texts. -/
def mnemonic : Opcode → String
  | .begin => "BEGIN"
  | .context => "CONTEXT"
  | .launch => "LAUNCH"
  | .streamIn => "STREAM_IN"
  | .streamOut => "STREAM_OUT"
  | .streamOutBlocking => "STREAM_OUT_BLOCKING"
  | .addDep => "ADD_DEP"
  | .barrier => "BARRIER"
  | .marker => "MARKER"
  | .finish => "END"

/-- The name in structured text. -/
def name : Opcode → String
  | .begin => "Begin"
  | .context => "Context"
  | .launch => "Launch"
  | .streamIn => "StreamIn"
  | .streamOut => "StreamOut"
  | .streamOutBlocking => "StreamOutBlocking"
  | .addDep => "AddDep"
  | .barrier => "Barrier"
  | .marker => "Marker"
  | .finish => "End"

/-- Launches and transfers: the operations that stand for a node of the task graph. -/
def isNode : Opcode → Bool
  | .launch | .streamIn | .streamOut | .streamOutBlocking => true
  | _ => false

theorem ofByte?_byte (op : Opcode) : ofByte? op.byte = some op := by
  cases op <;> rfl

theorem byte_of_ofByte? {b : UInt8} {op : Opcode} (h : ofByte? b = some op) : op.byte = b :=
  eq_of_beq (List.find?_some h :)

theorem mem_all (op : Opcode) : op ∈ all := by
  cases op <;> decide

end Opcode
end Offload
