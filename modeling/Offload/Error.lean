import Offload.Malformed
import Offload.Object

/-!
Every way in which the library fails, each cause with what its message names. The texts are in
`Misuse.message`, `CommandFault.message` and `Error.message` and nowhere else.
-/

namespace Offload

/-- A request that its own arguments rule out. -/
inductive Misuse
  | smallBytecodeLimit
  | zeroSetting (name : String)
  | emptyThreadName
  | zeroTunable (name : String)
  | unsupportedRank (rank : Nat)
  | emptyDomain (dimension : Nat)
  | belowLocalWork (localWork global : Nat)
  | listIndexTooLarge (list : Nat)
  | rewriteMismatch (source target : Opcode) (found : Option Opcode)
  | unknownInput (node input : Nat)
  | unknownProducer (node producer : Nat)
  | missingNode (node : Nat)
  | endlessChain (node : Nat)
  | cycle (nodes : List (Nat × String))
  | noContextNode
  | manyContextNodes (count : Nat)
  | zeroBatch
  | scalarBatch (object : Handle)
  | mixedBatch
  | emptyBatch
  | unevenBatch (batch : Nat) (element : Element)
  | missingDevice (context : String) (device attached : Nat)
  | missingObject (index : Nat)
  | missingTask (index : Nat)
  | missingKernel (kernel device : String)
  | neverExecuted
  | notBound (object : Handle) (context : String)
  | nothingToSynchronize (object : Handle)
  | nothingToRead (object : Handle)
  | readBeyondBuffer (length : Nat) (object : Handle) (size : Nat)
  | outsideObject (start length : Nat) (object : Handle) (size : Nat)
  | wrongElement (object : Handle) (held asked : Element)
  | wrongLength (object : Handle) (size given : Nat)
  | beforeContext
  | tooFewTasks (declared : Nat) (context : String) (present : Nat)
  | kernelNotInstalled (kernel : Nat) (device : String)
  | notCompiled
  | missingList (list : Nat)
  | other (text : String)
  deriving DecidableEq, Repr

namespace Misuse

def message : Misuse → String
  | smallBytecodeLimit => "max_bytecode_size must be at least 16 bytes"
  | zeroSetting name => s!"{name} must be > 0"
  | emptyThreadName => "queue_thread_name must not be empty"
  | zeroTunable name => s!"geometry tunable {name} must be > 0"
  | unsupportedRank rank => s!"unsupported iteration rank {rank} (expected 1 to 3)"
  | emptyDomain dimension => s!"empty iteration domain in dimension {dimension}"
  | belowLocalWork localWork global =>
    s!"minimum input of {localWork} elements per dimension required on a constrained device " ++
      s!"(global size {global})"
  | listIndexTooLarge list => s!"dependency list index {list} exceeds i32"
  | rewriteMismatch source target found =>
    let last := Text.optional (found.map Opcode.name)
    s!"cannot rewrite {source.name} to {target.mnemonic}: last instruction is {last}"
  | unknownInput node input => s!"node {node} refers to unknown input {input}"
  | unknownProducer node producer => s!"data dependency {node} refers to unknown producer {producer}"
  | missingNode node => s!"input refers to unknown node {node}"
  | endlessChain node => s!"data dependency chain through node {node} does not terminate"
  | cycle nodes =>
    let stuck := Text.list (nodes.map fun (id, kind) => s!"{id}:{kind}")
    s!"task graph has a cycle through nodes {stuck}"
  | noContextNode => "task graph has no context node"
  | manyContextNodes count => s!"multiple contexts are not supported ({count} context nodes)"
  | zeroBatch => "batch size must be greater than zero"
  | scalarBatch object => s!"batching is not supported for scalar object {object.label}"
  | mixedBatch => "batching with mixed input not supported"
  | emptyBatch => "batching requires at least one bound object"
  | unevenBatch batch element =>
    s!"batch size {batch} is not a multiple of the {element.name} element size {element.size}"
  | missingDevice context device attached =>
    s!"context {context} has no device {device} ({attached} attached)"
  | missingObject index => s!"object index {index} is not bound"
  | missingTask index => s!"task index {index} does not exist"
  | missingKernel kernel device =>
    "generated code is null: no kernel '" ++ kernel ++ "' installed on " ++ device
  | neverExecuted => "context has not executed on any device"
  | notBound object context => s!"{object.label} is not bound to context {context}"
  | nothingToSynchronize object => s!"{object.label} has no valid device copy to synchronize"
  | nothingToRead object => s!"{object.label} has no valid device copy to read"
  | readBeyondBuffer length object size =>
    s!"reading {length} bytes of {object.label} from a {size}-byte buffer"
  | outsideObject start length object size =>
    let stop := min (start + length) (wordLimit - 1)
    s!"range {start}..{stop} is outside {object.label} ({size} bytes)"
  | wrongElement object held asked =>
    s!"{object.label} holds {held.name} elements, not {asked.name}"
  | wrongLength object size given => s!"{object.label} holds {size} bytes, got {given}"
  | beforeContext => "instruction issued before CONTEXT"
  | tooFewTasks declared context present =>
    s!"program expects {declared} tasks, context {context} has {present}"
  | kernelNotInstalled kernel device => s!"kernel {kernel} is not installed on {device}"
  | notCompiled => "schedule has not been compiled"
  | missingList list => s!"dependency list {list} does not exist"
  | other text => text

end Misuse

inductive KernelFault
  | missingArgument (argument : Nat)
  | overfullArgument (argument given size : Nat)
  | reported (text : String)
  | crashed
  deriving DecidableEq, Repr

def KernelFault.message : KernelFault → String
  | missingArgument argument => s!"argument {argument} out of range"
  | overfullArgument argument given size =>
    s!"write of {given} bytes overflows argument {argument} ({size} bytes)"
  | reported text => text
  | crashed => "kernel panicked"

inductive CommandFault
  | dependency (event : Nat)
  | writeUnknown (buffer : Nat)
  | writeOverflow (given buffer size : Nat)
  | readUnknown (buffer : Nat)
  | readOverflow (asked buffer size : Nat)
  | readOutsideHost (start stop size : Nat)
  | unknownArgument (argument buffer : Nat)
  | kernel (fault : KernelFault)
  | unknownEvent
  | task (id : String) (cause : CommandFault)
  | other (text : String)
  deriving DecidableEq, Repr

def CommandFault.message : CommandFault → String
  | dependency event => s!"dependency #{event} failed"
  | writeUnknown buffer => s!"write to unknown buffer {buffer}"
  | writeOverflow given buffer size => s!"write of {given} bytes overflows buffer {buffer} ({size} bytes)"
  | readUnknown buffer => s!"read from unknown buffer {buffer}"
  | readOverflow asked buffer size => s!"read of {asked} bytes overflows buffer {buffer} ({size} bytes)"
  | readOutsideHost start stop size => s!"read into host range {start}..{stop} exceeds {size} bytes"
  | unknownArgument argument buffer => s!"argument {argument} refers to unknown buffer {buffer}"
  | kernel fault => fault.message
  | unknownEvent => "unknown event"
  | task id cause => s!"task {id} failed: " ++ cause.message
  | other text => text

inductive Shortage
  | memory (requested inUse capacity : Nat)
  | memoryFor (object : Handle) (cause : Shortage)
  | other (text : String)
  deriving DecidableEq, Repr

def Shortage.message : Shortage → String
  | memory requested inUse capacity =>
    s!"out of memory: requested {requested} bytes with {inUse} of {capacity} in use"
  | memoryFor object cause => s!"{object.label}: " ++ cause.message
  | other text => text

inductive Error
  | config (cause : Misuse)
  | resource (device : Nat) (cause : Shortage)
  | encoding (limit : Nat)
  | decode (offset : Nat) (cause : Malformed)
  | device (device event : Nat) (cause : CommandFault)
  | instruction (index : Nat) (opcode : Opcode) (source : Error)
  | file
  | json
  deriving DecidableEq, Repr

namespace Error

def message : Error → String
  | config cause => "config error: " ++ cause.message
  | resource index cause => s!"resource error on device {index}: " ++ cause.message
  | encoding limit =>
    s!"bytecode buffer overflow: program exceeds {limit} bytes, increase max bytecode size"
  | decode offset cause => s!"malformed bytecode at offset {offset}: " ++ cause.message
  | device index event cause => s!"device error on device {index}, event {event}: " ++ cause.message
  | instruction index opcode source => s!"instruction {index} ({opcode.mnemonic}): " ++ source.message
  | file => "file error"
  | json => "malformed document"

/-- Says which instruction failed, unless the error already does. -/
def atInstruction (e : Error) (index : Nat) (opcode : Opcode) : Error :=
  match e with
  | instruction index opcode source => .instruction index opcode source
  | e => .instruction index opcode e

/-- Only a program that outgrew its limit can succeed when tried again, with a larger limit. -/
def isRecoverable : Error → Bool
  | encoding _ => true
  | instruction _ _ source => source.isRecoverable
  | _ => false

def root : Error → Error
  | instruction _ _ source => source.root
  | e => e

theorem atInstruction_atInstruction (e : Error) (i j : Nat) (op op' : Opcode) :
    (e.atInstruction i op).atInstruction j op' = e.atInstruction i op := by
  cases e <;> rfl

theorem root_atInstruction (e : Error) (i : Nat) (op : Opcode) :
    (e.atInstruction i op).root = e.root := by
  cases e <;> rfl

end Error

/-- A computation on a state of type `σ` that may fail; what it changed before failing stays changed. -/
abbrev Action (σ : Type) := ExceptT Error (StateM σ)

end Offload
