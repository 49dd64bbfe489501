import Offload.Device.Memory
import Offload.Event

/-!
A device with a queue that runs its commands in the order in which they were given. A command whose
wait list holds a failed or forgotten event fails without running.
-/

namespace Offload

structure Device where
  name : String := "host"
  /-- The number that errors call the device by. -/
  index : Nat := 0
  limits : Limits
  threadName : String
  memory : Memory := { capacity := 256 * 1024 * 1024 }
  kernels : List (String × Kernel) := []
  /-- The finished commands that were not forgotten, the latest first. -/
  events : List (EventId × EventStatus) := []
  nextEvent : Nat := 1

namespace Device

def queueThread (d : Device) : String :=
  s!"{d.threadName}-{d.index}"

/-- Installs a kernel, in place of the one that has the name already; the place of a name never changes. -/
def install (d : Device) (name : String) (kernel : Kernel) : Nat × Device :=
  match d.kernels.findIdx? (·.1 == name) with
  | some place => (place, { d with kernels := d.kernels.set place (name, kernel) })
  | none => (d.kernels.length, { d with kernels := d.kernels ++ [(name, kernel)] })

def lookup? (d : Device) (name : String) : Option Nat :=
  d.kernels.findIdx? (·.1 == name)

def status? (d : Device) (e : EventId) : Option EventStatus :=
  d.events.lookup e

def blocks (d : Device) (own e : EventId) : Bool :=
  -- a forgotten event blocks like a failed one; the command's own is not over yet and blocks nothing
  e ≠ own && d.status? e ≠ some .complete

/-- The fault of a command with event `own` and the given wait list, before its body is looked at. -/
def waitFault (d : Device) (own : EventId) (wait : List EventId) : Option CommandFault :=
  (wait.find? (d.blocks own)).map fun e => .dependency e.number

/-- The device after its next command ended with `fault`, or well. -/
def record (d : Device) (fault : Option CommandFault) (memory : Memory) : Device :=
  let status := match fault with
    | none => .complete
    | some fault => .failed fault
  { d with memory, events := (⟨d.nextEvent⟩, status) :: d.events, nextEvent := d.nextEvent + 1 }

/--
Runs the next command: its body, unless its wait list forbids it. The outcome is the body's fault or
result, whichever there is.
-/
def submit {α : Type} (wait : List EventId) (body : Memory → Except CommandFault α × Memory)
    (d : Device) : EventId × Except CommandFault α × Device :=
  let own : EventId := ⟨d.nextEvent⟩
  match d.waitFault own wait with
  | some fault => (own, .error fault, d.record (some fault) d.memory)
  | none =>
    match body d.memory with
    | (.ok a, memory) => (own, .ok a, d.record none memory)
    | (.error fault, memory) => (own, .error fault, d.record (some fault) memory)

theorem submit_event {α : Type} (wait : List EventId) (body : Memory → Except CommandFault α × Memory)
    (d : Device) : (submit wait body d).1 = ⟨d.nextEvent⟩ := by
  simp only [submit]
  cases d.waitFault ⟨d.nextEvent⟩ wait with
  | some fault => rfl
  | none => cases body d.memory with | mk outcome memory => cases outcome <;> rfl

/-- Runs a command; only a blocking one reports its fault to the caller. -/
def perform {α : Type} (wait : List EventId) (blocking : Bool)
    (body : Memory → Except CommandFault α × Memory) : Action Device (EventId × Option α) := do
  let (own, outcome, d) := submit wait body (← get)
  set d
  match outcome with
  | .ok a => return (own, some a)
  | .error fault =>
    if blocking then throw (.device d.index own.number fault)
    return (own, none)

def allocate (size : Nat) : Action Device BufferId := do
  let d ← get
  match d.memory.allocate size with
  | .error cause => throw (.resource d.index cause)
  | .ok (id, memory) =>
    set { d with memory }
    return id

def release (id : BufferId) : Action Device Unit :=
  modify fun d => { d with memory := d.memory.release id }

def write (id : BufferId) (data : Bytes) (wait : List EventId) (blocking : Bool) :
    Action Device EventId := do
  let (event, _) ← perform wait blocking fun m =>
    match m.write id data with
    | .ok m => (.ok (), m)
    | .error fault => (.error fault, m)
  return event

/-- Copies the front of a buffer out; the bytes are there if the command ended well. -/
def read (id : BufferId) (hostSize offset length : Nat) (wait : List EventId) (blocking : Bool) :
    Action Device (EventId × Option Bytes) :=
  perform wait blocking fun m => (m.read id hostSize offset length, m)

def launch (kernel : Nat) (arguments : List BufferId) (geometry : Geometry) (wait : List EventId) :
    Action Device EventId := do
  let d ← get
  let some (_, code) := d.kernels[kernel]? | throw (.config (.kernelNotInstalled kernel d.name))
  let (event, _) ← perform wait false fun m =>
    match m.run code arguments geometry with
    | (none, m) => (.ok (), m)
    | (some fault, m) => (.error fault, m)
  return event

/-- A command without a body, which only waits. -/
def barrier (wait : List EventId) : Action Device EventId := do
  let (event, _) ← perform wait false fun m => (.ok (), m)
  return event

def marker (wait : List EventId) : Action Device EventId :=
  -- on a queue that keeps its order there is no difference
  barrier wait

def resolve (e : EventId) : Action Device EventInfo := do
  let d ← get
  match d.status? e with
  | some status =>
    -- commands run one at a time, so the place in the queue does for all three times
    return { id := e, status, queued := e.number, started := some e.number, ended := some e.number }
  | none => throw (.device d.index e.number .unknownEvent)

/-- Waits until all the events are over, which fails for an event that is not known. -/
def wait (events : List EventId) : Action Device Unit := do
  let d ← get
  if let some e := events.find? fun e => (d.status? e).isNone then
    throw (.device d.index e.number .unknownEvent)

def finish : Action Device Unit := do
  let event ← barrier []
  wait [event]

def flushEvents : Action Device Nat := do
  let d ← get
  set { d with events := [] }
  return d.events.length

def describe (d : Device) : String :=
  Text.record "HostDevice"
    [("name", Text.quote d.name), ("index", toString d.index), ("limits", d.limits.describe)]

end Device
end Offload
