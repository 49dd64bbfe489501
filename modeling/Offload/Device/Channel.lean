import Offload.Device

/-!
The channel through which contexts and machines reach a device. It passes every call on and notes it in a
journal, with what came of it.
-/

namespace Offload

inductive Call
  | allocate (size : Nat) (result : Except Error BufferId)
  | release (buffer : BufferId)
  | write (buffer : BufferId) (length : Nat) (wait : List EventId) (blocking : Bool)
    (result : Except Error EventId)
  | read (buffer : BufferId) (offset length : Nat) (wait : List EventId) (blocking : Bool)
    (result : Except Error EventId)
  | lookup (name : String) (result : Option Nat)
  | launch (kernel : Nat) (arguments : List BufferId) (geometry : Geometry) (wait : List EventId)
    (result : Except Error EventId)
  | barrier (wait : List EventId) (result : Except Error EventId)
  | marker (wait : List EventId) (result : Except Error EventId)
  | resolve (event : EventId)
  | wait (events : List EventId)

/-- The journal holds the calls in the order in which they were made. -/
structure Channel where
  device : Device
  journal : List Call := []

namespace Channel

def noting {α : Type} (note : Except Error α → Call) (call : Action Device α) : Action Channel α :=
  fun p =>
    let (result, device) := call p.device
    (result, { device, journal := p.journal ++ [note result] })

def directly {α : Type} (call : Action Device α) : Action Channel α :=
  fun p =>
    let (result, device) := call p.device
    (result, { p with device })

def allocate (size : Nat) : Action Channel BufferId :=
  noting (.allocate size) (Device.allocate size)

def release (id : BufferId) : Action Channel Unit :=
  noting (fun _ => .release id) (Device.release id)

def write (id : BufferId) (data : Bytes) (wait : List EventId) (blocking : Bool) :
    Action Channel EventId :=
  noting (.write id data.length wait blocking) (Device.write id data wait blocking)

def read (id : BufferId) (hostSize offset length : Nat) (wait : List EventId) (blocking : Bool) :
    Action Channel (EventId × Option Bytes) :=
  noting (fun result => .read id offset length wait blocking (result.map Prod.fst))
    (Device.read id hostSize offset length wait blocking)

def lookup (name : String) : Action Channel (Option Nat) :=
  noting (fun result => .lookup name (result.toOption.getD none))
    (return (← get).lookup? name)

def launch (kernel : Nat) (arguments : List BufferId) (geometry : Geometry) (wait : List EventId) :
    Action Channel EventId :=
  noting (.launch kernel arguments geometry wait) (Device.launch kernel arguments geometry wait)

def barrier (wait : List EventId) : Action Channel EventId :=
  noting (.barrier wait) (Device.barrier wait)

def marker (wait : List EventId) : Action Channel EventId :=
  noting (.marker wait) (Device.marker wait)

def resolve (e : EventId) : Action Channel EventInfo :=
  noting (fun _ => .resolve e) (Device.resolve e)

def wait (events : List EventId) : Action Channel Unit :=
  noting (fun _ => .wait events) (Device.wait events)

end Channel
end Offload
