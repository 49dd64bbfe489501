import Offload.Context

/-!
The device buffers of a context: made when they are needed, read back on request, and given back
together.
-/

namespace Offload.Context

abbrev On := Action (Hosted Context)

def modifyContext (f : Context → Context) : On Unit :=
  modify fun s => { s with part := f s.part }

def onDevice {α : Type} (device : Nat) (act : Action Channel α) : On α := do
  let place ← (← get).part.place device
  Hosted.onPlatform (Platform.onChannel place act)

/-- Gives back the buffer of a binding and, if the active device owns the object, its record. -/
def giveUp (c : Context) (p : Platform) (b : Binding) : Platform :=
  match c.active with
  | none => p
  | some active =>
    let p := match c.devices[active]?, b.state.buffer with
      | some place, some buffer => (Platform.onChannel place (Channel.release buffer) p).2
      | _, _ => p
    if (p.registry.record? b.object.handle).bind Ownership.owner = some active then
      { p with registry := p.registry.clearOwner b.object.handle }
    else p

def detachAll (c : Context) : Context :=
  { c with bindings := c.bindings.map fun b => { b with state := b.state.detach } }

/-- Gives back every buffer; objects that the active device owns lose their owner. -/
def invalidate : On Unit :=
  modify fun s =>
    { platform := s.part.bindings.foldl s.part.giveUp s.platform, part := s.part.detachAll }

def activate (device : Nat) : On Unit := do
  let _ ← (← get).part.place device
  match (← get).part.active with
  -- all buffers are on one device at a time
  | some current => if current ≠ device then invalidate
  | none => pure ()
  modifyContext fun c => { c with active := some device }

/-- The kernel of a task on a device, looked up once for each context. -/
def kernel (device task : Nat) : On Nat := do
  let c := (← get).part
  match c.kernels.lookup (device, task) with
  | some kernel => return kernel
  | none =>
    let t ← c.task task
    let place ← c.place device
    match ← onDevice device (Channel.lookup t.kernel) with
    | some kernel =>
      modifyContext fun c => { c with kernels := ((device, task), kernel) :: c.kernels }
      return kernel
    | none =>
      let deviceName := ((← get).platform.channel place).device.name
      throw (.config (.missingKernel t.kernel deviceName))

def nameObject (h : Handle) : Error → Error
  | .resource device cause => .resource device (.memoryFor h cause)
  | e => e

/-- A buffer of exactly `size` bytes for a bound object: the one it has, or a new one without data. -/
def ensureBuffer (device index size : Nat) : On BufferId := do
  let b ← (← get).part.binding index
  match b.state.buffer with
  | some buffer => if b.state.size = size then return buffer
  | none => pure ()
  let _ ← (← get).part.place device
  -- the old buffer goes first, so that its room can be used for the new one
  if let some old := b.state.buffer then
    modifyContext (·.modifyState index ObjectState.detach)
    onDevice device (Channel.release old)
  let buffer ← tryCatch (onDevice device (Channel.allocate size))
    fun e => throw (nameObject b.object.handle e)
  modifyContext (·.modifyState index (·.attach buffer size))
  return buffer

/-- Reads the buffer of one object back from the active device, to where it belongs. -/
def syncObject (device place : Nat) (o : HostObject) : On Unit := do
  let s ← get
  let index ← s.part.objectIndex o.handle
  let b ← s.part.binding index
  let some buffer := b.state.validBuffer? | throw (.config (.nothingToSynchronize o.handle))
  -- after a batched run the buffer holds the last window, which lands where it came from
  let offset := b.state.hostOffset
  let length := min b.state.size (s.platform.registry.byteLength o.handle - offset)
  let _ ← Hosted.onPlatform (Platform.readBack place buffer o.handle offset length [] true)
  modify fun s =>
    { s with platform := { s.platform with registry := s.platform.registry.setOwner o.handle device true } }

/-- Reads the buffers of the objects back, one after the other, until one of them fails. -/
def sync (objects : List HostObject) : On Unit := do
  let c := (← get).part
  let some device := c.active | throw (.config .neverExecuted)
  let place ← c.place device
  objects.forM (syncObject device place)

end Offload.Context
