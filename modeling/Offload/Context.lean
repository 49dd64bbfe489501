import Offload.Platform
import Offload.Task

/-!
Contexts: the tables of devices, objects and tasks that the operands of a program refer to, and for
each bound object the device buffer that holds its copy. All buffers of a context live on one device,
the active one.
-/

namespace Offload

/-- What a context knows about the device copy of one bound object. -/
structure ObjectState where
  streamIn : Bool := false
  streamOut : Bool := false
  buffer : Option BufferId := none
  size : Nat := 0
  /-- Where the first byte of the buffer belongs in the object. -/
  hostOffset : Nat := 0
  valid : Bool := false
  written : Bool := false
  deriving DecidableEq, Repr

namespace ObjectState

/-- Whether the buffer holds data that the host may take. -/
def isValid (s : ObjectState) : Bool :=
  s.buffer.isSome && s.valid

def validBuffer? (s : ObjectState) : Option BufferId :=
  if s.valid then s.buffer else none

def attach (s : ObjectState) (buffer : BufferId) (size : Nat) : ObjectState :=
  { s with buffer := some buffer, size, hostOffset := 0, valid := false, written := false }

def detach (s : ObjectState) : ObjectState :=
  { s with buffer := none, size := 0, hostOffset := 0, valid := false, written := false }

/-- The buffer now holds the object's bytes from `hostOffset` on. -/
def markWritten (s : ObjectState) (hostOffset : Nat) : ObjectState :=
  { s with hostOffset, valid := true, written := true }

theorem isValid_eq_isSome_validBuffer? (s : ObjectState) : s.isValid = s.validBuffer?.isSome := by
  cases hv : s.valid <;> simp [isValid, validBuffer?, hv]

theorem isValid_attach (s : ObjectState) (buffer : BufferId) (size : Nat) :
    (s.attach buffer size).isValid = false := by
  simp [isValid, attach]

theorem isValid_markWritten (s : ObjectState) (hostOffset : Nat) :
    (s.markWritten hostOffset).isValid = s.buffer.isSome := by
  simp [isValid, markWritten]

end ObjectState

structure Binding where
  object : HostObject
  state : ObjectState := {}
  deriving DecidableEq, Repr

structure Context where
  name : String
  /-- The places of the attached devices on the platform. -/
  devices : List Nat := []
  active : Option Nat := none
  bindings : List Binding := []
  tasks : List Task := []
  /-- The kernels found so far, by the indices of device and task. -/
  kernels : List ((Nat × Nat) × Nat) := []
  deriving DecidableEq, Repr

namespace Context

/-- Attaches the device at a place; programs refer to it by the index. -/
def addDevice (c : Context) (place : Nat) : Nat × Context :=
  (c.devices.length, { c with devices := c.devices ++ [place] })

def place (c : Context) (device : Nat) : Except Error Nat :=
  match c.devices[device]? with
  | some place => pure place
  | none => throw (.config (.missingDevice c.name device c.devices.length))

def objectIndex? (c : Context) (h : Handle) : Option Nat :=
  c.bindings.findIdx? (·.object.handle = h)

def objectIndex (c : Context) (h : Handle) : Except Error Nat :=
  match c.objectIndex? h with
  | some index => pure index
  | none => throw (.config (.notBound h c.name))

/-- Binds an object, unless it is bound already. -/
def bind (c : Context) (o : HostObject) : Nat × Context :=
  match c.objectIndex? o.handle with
  | some index => (index, c)
  | none => (c.bindings.length, { c with bindings := c.bindings ++ [{ object := o }] })

theorem objectIndex?_bind (c : Context) (o : HostObject) :
    (c.bind o).2.objectIndex? o.handle = some (c.bind o).1 := by
  unfold bind
  split
  case h_1 index h => exact h
  case h_2 h =>
    -- the object is bound nowhere before, so the first place that has it is the new one
    have hnone : c.bindings.findIdx? (fun b => decide (b.object.handle = o.handle)) = none := h
    simp [objectIndex?, List.findIdx?_append, hnone]

def bindAll (c : Context) (objects : List HostObject) : Context :=
  objects.foldl (fun c o => (c.bind o).2) c

def addTask (c : Context) (t : Task) : Nat × Context :=
  let c := c.bindAll (t.arguments.map Argument.object)
  (c.tasks.length, { c with tasks := c.tasks ++ [t] })

def binding (c : Context) (index : Nat) : Except Error Binding :=
  match c.bindings[index]? with
  | some b => pure b
  | none => throw (.config (.missingObject index))

def task (c : Context) (index : Nat) : Except Error Task :=
  match c.tasks[index]? with
  | some t => pure t
  | none => throw (.config (.missingTask index))

def modifyState (c : Context) (index : Nat) (f : ObjectState → ObjectState) : Context :=
  { c with bindings := c.bindings.modify index fun b => { b with state := f b.state } }

/-- The context after a kernel left its results in the buffer of an argument, if it writes there. -/
def markArgument (hostOffset : Nat) (c : Context) (a : Argument) : Context :=
  match c.objectIndex? a.object.handle with
  | some index => if a.access.writes then c.modifyState index (·.markWritten hostOffset) else c
  | none => c

/-- The context after a task left its results in the buffers of what it writes. -/
def markWritten (c : Context) (t : Task) (hostOffset : Nat) : Context :=
  t.arguments.foldl (markArgument hostOffset) c

def describe (c : Context) : String :=
  Text.record "ExecutionContext"
    [("name", Text.quote c.name), ("devices", toString c.devices.length),
      ("active_device", Text.optional (c.active.map toString)),
      ("objects", toString c.bindings.length), ("tasks", toString c.tasks.length)]

end Context
end Offload
