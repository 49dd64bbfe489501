import Offload.Context.Buffers
import Offload.Program

/-!
The machine that runs a program on a context. Instructions are issued in order; each command waits for
the events of its dependency list, so that work on the device follows the task graph.
-/

namespace Offload

structure Machine where
  program : Program
  instructions : List Instruction
  config : Config
  /-- Whether executions are counted by the platform. -/
  counted : Bool := false
  deriving DecidableEq, Repr

inductive Progress
  | pending
  | issued
  | completed
  deriving DecidableEq, Repr

def Progress.name : Progress → String
  | .pending => "Pending"
  | .issued => "Issued"
  | .completed => "Completed"

/-- The events of one dependency list; once they were waited for, the next event starts afresh. -/
structure EventList where
  events : List EventId := []
  consumed : Bool := false
  deriving DecidableEq, Repr

def EventList.append (l : EventList) (e : Option EventId) : EventList :=
  { events := (if l.consumed then [] else l.events) ++ e.toList }

/-- An attached device by its index, with its place on the platform. -/
structure Target where
  index : Nat
  place : Nat
  deriving DecidableEq, Repr

structure Run where
  lists : List EventList
  target : Option Target := none
  /-- The event of the latest instruction that is not an append, if it had one. -/
  last : Option EventId := none
  final : Option EventId := none
  states : List Progress
  events : List (Nat × EventId) := []
  /-- The objects that are to be owned by the device once the execution is waited for. -/
  pending : List Handle := []
  deriving DecidableEq, Repr

/-- What is left of an execution once everything was issued. -/
structure Execution where
  target : Target
  final : Option EventId
  states : List Progress
  events : List (Nat × EventId)
  pending : List Handle
  deriving DecidableEq, Repr

namespace Run

def start (m : Machine) : Run where
  lists := m.program.lists.map fun _ => {}
  states := m.instructions.map fun _ => .pending

def waiting (r : Run) : Option Nat → List EventId
  | none => []
  | some list => (r.lists[list]?.map EventList.events).getD []

/-- The run after the events of a list were waited for. -/
def consume (r : Run) : Option Nat → Run
  | none => r
  | some list => { r with lists := r.lists.modify list fun l => { l with consumed := true } }

/-- The run after instruction `index` was issued, with or without an event. -/
def record (r : Run) (index : Nat) : Option EventId → Run
  | none => { r with last := none, states := r.states.set index .completed }
  | some e => { r with
      last := some e
      states := r.states.set index .issued
      events := r.events ++ [(index, e)] }

def device (r : Run) : Except Error Target :=
  match r.target with
  | some target => pure target
  | none => throw (.config .beforeContext)

end Run

namespace Machine

open Context (On onDevice modifyContext)

/-- A machine for a program that decodes and declares as many lists as it has. -/
def create (program : Program) (config : Config) : Except Error Machine := do
  config.validate
  let instructions ← program.decode
  match instructions with
  | .begin _ _ lists :: _ =>
    if lists = program.lists.length then return { program, instructions, config }
    else throw (.decode 0 (.listCount lists program.lists.length))
  | _ => throw (.decode 0 (.other "program does not start with BEGIN"))

def describe (m : Machine) : String :=
  Text.record "VirtualMachine"
    [("instructions", toString m.instructions.length), ("bytes", toString m.program.size)]

def count (m : Machine) (f : Counters → Counters) : On Unit :=
  if m.counted then Hosted.count f else pure ()

def onTarget {α : Type} (t : Target) (act : Action Channel α) : On α :=
  Hosted.onPlatform (Platform.onChannel t.place act)

/-- Bytes of an object, or the `length` bytes that a transfer names. -/
def transferSize (registry : Registry) (o : HostObject) (length : Nat) : Nat :=
  if 0 < length then length else registry.byteLength o.handle

/-- Copies an object, or a window of it, to its buffer. -/
def streamIn (m : Machine) (r : Run) (object offset length : Nat) (wait : List EventId) :
    On (Option EventId) := do
  let t ← r.device
  let s ← get
  let b ← s.part.binding object
  let o := b.object
  let size := transferSize s.platform.registry o length
  let buffer ← Context.ensureBuffer t.index object size
  -- a scalar is copied from its start, and only once for each buffer unless transfers are measured
  let offset := if o.isScalar then 0 else offset
  let written := (← (← get).part.binding object).state.written
  if o.isScalar ∧ written ∧ ¬m.config.benchmarkingMode then return none
  let data ← s.platform.registry.window o offset size
  let event ← onTarget t (Channel.write buffer data wait o.isScalar)
  modifyContext (·.modifyState object (·.markWritten offset))
  m.count (·.countIn size)
  return some event

/-- The bytes that an argument's buffer needs: as many elements as threads, or the whole object. -/
def argumentSize (registry : Registry) (o : HostObject) (threads : Nat) : Nat :=
  match o.kind with
  | .array element => if 0 < threads then threads * element.size else registry.byteLength o.handle
  | .scalar => registry.byteLength o.handle

def argumentBuffer (device threads : Nat) (a : Argument) : On BufferId := do
  let s ← get
  let index ← s.part.objectIndex a.object.handle
  let b ← s.part.binding index
  match b.state.buffer with
  | some buffer =>
    -- what is only read keeps the size that its stream-in chose
    if !a.access.writes then return buffer
  | none => pure ()
  Context.ensureBuffer device index (argumentSize s.platform.registry a.object threads)

def checkLaunch (device : Nat) (t : Task) (event : EventId) : On Unit := do
  onDevice device (Channel.wait [event])
  let info ← onDevice device (Channel.resolve event)
  match info.status with
  | .failed fault => throw (.device device event.number (.task t.id fault))
  | _ => pure ()

def launch (m : Machine) (task device offset threads : Nat) (wait : List EventId) : On EventId := do
  let kernel ← Context.kernel device task
  let place ← (← get).part.place device
  let t ← (← get).part.task task
  let buffers ← t.arguments.mapM (argumentBuffer device threads)
  let limits := ((← get).platform.channel place).device.limits
  let geometry ← Geometry.launch t.domain threads limits m.config.tuning
  let event ← onDevice device (Channel.launch kernel buffers geometry wait)
  m.count Counters.countLaunch
  -- without exceptions the results count as written before it is known whether there are any
  if t.exceptions then checkLaunch device t event
  modifyContext (·.markWritten t offset)
  return event

/-- Copies a buffer back to its object, or to a window of it. -/
def streamOut (m : Machine) (r : Run) (object offset length : Nat) (wait : List EventId)
    (blocking : Bool) : On (Option EventId × Run) := do
  let t ← r.device
  let s ← get
  let b ← s.part.binding object
  let h := b.object.handle
  let some buffer := b.state.validBuffer? | throw (.config (.nothingToRead h))
  let size := transferSize s.platform.registry b.object length
  if b.state.size < size then throw (.config (.readBeyondBuffer size h b.state.size))
  let event ← Hosted.onPlatform (Platform.readBack t.place buffer h offset size wait blocking)
  m.count (·.countOut size)
  -- a transfer that did not block leaves the record to whoever waits for the execution
  if blocking then
    modify fun s =>
      { s with platform := { s.platform with registry := s.platform.registry.setOwner h t.index true } }
    return (none, r)
  else return (some event, { r with pending := r.pending ++ [h] })

def record (m : Machine) (r : Run) (index : Nat) (event : Option EventId) : On Run := do
  m.count Counters.countInstruction
  return r.record index event

/-- Waits on the device without doing anything there. -/
def synchronize (m : Machine) (r : Run) (index : Nat) (call : List EventId → Action Channel EventId)
    (wait : Option Nat) : On Run := do
  let t ← r.device
  let event ← onTarget t (call (r.waiting wait))
  m.count Counters.countBarrier
  m.record { r.consume wait with final := some event } index (some event)

def step (m : Machine) (index : Nat) (i : Instruction) (r : Run) : On Run := do
  match i with
  | .begin _ tasks _ =>
    let c := (← get).part
    if c.tasks.length < tasks then throw (.config (.tooFewTasks tasks c.name c.tasks.length))
    m.record r index none
  | .context device =>
    Context.activate device
    let place ← (← get).part.place device
    m.record { r with target := some { index := device, place } } index none
  | .streamIn object offset length wait =>
    let event ← m.streamIn r object offset length (r.waiting wait)
    m.record (r.consume wait) index event
  | .launch task device wait offset threads =>
    let event ← m.launch task device offset threads (r.waiting wait)
    m.record (r.consume wait) index (some event)
  | .streamOut object offset length wait =>
    let (event, r) ← m.streamOut (r.consume wait) object offset length (r.waiting wait) false
    m.record r index event
  | .streamOutBlocking object offset length wait =>
    let (event, r) ← m.streamOut (r.consume wait) object offset length (r.waiting wait) true
    m.record r index event
  | .addDep list =>
    if list < r.lists.length then
      -- the latest event stays, so that several appends in a row append the same one
      return { r with
        lists := r.lists.modify list (·.append r.last)
        states := r.states.set index .completed }
    else throw (.config (.missingList list))
  | .barrier wait => m.synchronize r index Channel.barrier wait
  | .marker wait => m.synchronize r index Channel.marker wait
  | .finish => m.record r index none

/-- Issues the instructions from `index` on; the first that fails costs the context its buffers. -/
def steps (m : Machine) : Nat → List Instruction → Run → On Run
  | _, [], r => return r
  | index, i :: instructions, r => do
    -- what was issued so far may have left the buffers in any state
    let r ← tryCatch (m.step index i r) fun e => do
      Context.invalidate
      throw (e.atInstruction index i.opcode)
    m.steps (index + 1) instructions r

def execute (m : Machine) : On Execution := do
  let r ← m.steps 0 m.instructions (Run.start m)
  let target ← r.device
  m.count Counters.countExecution
  return { target, final := r.final, states := r.states, events := r.events, pending := r.pending }

end Machine
end Offload
