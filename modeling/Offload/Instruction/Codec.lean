import Offload.Bytes.Varint
import Offload.Error
import Offload.Instruction

/-!
The bytes of an instruction: its opcode, then its operands in order. Indices are varints, offsets,
lengths and thread counts are 64-bit little-endian words, and a wait list is a signed 32-bit word in
which -1 stands for no list.
-/

namespace Offload

inductive Operand
  | index (n : Nat)
  | wait (list : Option Nat)
  | word (n : Nat)
  deriving DecidableEq, Repr

namespace Operand

/-- The word that stands for no list: minus one, in 32 bits. -/
def noWait : Nat := 0xffffffff

/-- One more than the largest list index that a signed 32-bit word holds. -/
def waitLimit : Nat := 0x80000000

def encode : Operand → Except Misuse Bytes
  | .index n => .ok (Varint.encode n)
  | .wait none => .ok (Bytes.word 4 noWait)
  | .wait (some list) =>
    if list < waitLimit then .ok (Bytes.word 4 list) else .error (.listIndexTooLarge list)
  | .word n => .ok (Bytes.word 8 n)

/-- The bytes of the operands up to the first that has none, and why it has none. -/
def encodeAll : List Operand → Bytes × Option Misuse
  | [] => ([], none)
  | operand :: operands =>
    match operand.encode with
    | .error cause => ([], some cause)
    | .ok bytes =>
      let (rest, fault) := encodeAll operands
      (bytes ++ rest, fault)

end Operand

/-- Takes a value off the front of the bytes that are left. -/
abbrev Scan := StateT Bytes (Except Malformed)

namespace Scan

def index : Scan Nat :=
  Varint.decode

def take (width : Nat) (fault : Malformed) : Scan Bytes := fun bytes =>
  if bytes.length < width then .error fault else .ok (bytes.take width, bytes.drop width)

def word (op : Opcode) : Scan Nat := do
  return Bytes.value (← take 8 (.truncatedOperands op))

def wait : Scan (Option Nat) := do
  let n := Bytes.value (← take 4 .truncatedWaitList)
  if n = Operand.noWait then return none
  else if n < Operand.waitLimit then return some n
  else throw (.invalidWaitList ((n : Int) - 0x100000000))

end Scan

namespace Instruction

def operands : Instruction → List Operand
  | .begin slots tasks lists => [.index slots, .index tasks, .index lists]
  | .context device => [.index device]
  | .launch task device wait offset threads =>
    [.index task, .index device, .wait wait, .word offset, .word threads]
  | .streamIn object offset length wait
  | .streamOut object offset length wait
  | .streamOutBlocking object offset length wait =>
    [.index object, .word offset, .word length, .wait wait]
  | .addDep list => [.index list]
  | .barrier wait | .marker wait => [.wait wait]
  | .finish => []

/-- The bytes that are written for the instruction, and why they are not all of it. -/
def write (i : Instruction) : Bytes × Option Misuse :=
  let (bytes, fault) := Operand.encodeAll i.operands
  (i.opcode.byte :: bytes, fault)

def encode (i : Instruction) : Except Misuse Bytes :=
  match i.write with
  | (bytes, none) => .ok bytes
  | (_, some cause) => .error cause

def scanOperands : Opcode → Scan Instruction
  | .begin => return .begin (← Scan.index) (← Scan.index) (← Scan.index)
  | .context => return .context (← Scan.index)
  | .launch =>
    -- here alone the wait list comes before the words
    return .launch (← Scan.index) (← Scan.index) (← Scan.wait) (← Scan.word .launch)
      (← Scan.word .launch)
  | .streamIn =>
    return .streamIn (← Scan.index) (← Scan.word .streamIn) (← Scan.word .streamIn) (← Scan.wait)
  | .streamOut =>
    return .streamOut (← Scan.index) (← Scan.word .streamOut) (← Scan.word .streamOut) (← Scan.wait)
  | .streamOutBlocking =>
    return .streamOutBlocking (← Scan.index) (← Scan.word .streamOutBlocking)
      (← Scan.word .streamOutBlocking) (← Scan.wait)
  | .addDep => return .addDep (← Scan.index)
  | .barrier => return .barrier (← Scan.wait)
  | .marker => return .marker (← Scan.wait)
  | .finish => return .finish

def scan : Scan Instruction
  | [] => .error .endOfProgram
  | b :: rest =>
    match Opcode.ofByte? b with
    | none => .error (.unknownOpcode b)
    | some op => scanOperands op rest

/-- The instruction at `position`, and the position after it. -/
def decode (code : Bytes) (position : Nat) : Except Error (Instruction × Nat) :=
  match scan (code.drop position) with
  | .error cause => .error (.decode position cause)
  | .ok (i, rest) => .ok (i, code.length - rest.length)

end Instruction
end Offload
