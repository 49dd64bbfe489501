import Offload.Error
import Offload.Kernel

/-!
Device memory: buffers with the bytes they were accounted for, under a capacity. Each operation here is
the body of one device command.
-/

namespace Offload

/-- The key of a device buffer; keys count from 1 and are never used again. -/
structure BufferId where
  number : Nat
  deriving DecidableEq, Repr

structure Buffer where
  id : BufferId
  /-- The bytes it was allocated with. -/
  size : Nat
  bytes : Bytes
  deriving DecidableEq, Repr

structure Memory where
  capacity : Nat
  buffers : List Buffer := []
  allocated : Nat := 0
  next : Nat := 1
  deriving DecidableEq, Repr

namespace Memory

def buffer? (m : Memory) (id : BufferId) : Option Buffer :=
  m.buffers.find? (·.id = id)

/-- A new buffer of zeros, if there is room for it. -/
def allocate (m : Memory) (size : Nat) : Except Shortage (BufferId × Memory) :=
  if m.capacity < m.allocated + size then throw (.memory size m.allocated m.capacity)
  else
    let id : BufferId := ⟨m.next⟩
    pure (id, { m with
      buffers := m.buffers ++ [{ id, size, bytes := Bytes.zeros size }]
      allocated := m.allocated + size
      next := m.next + 1 })

def release (m : Memory) (id : BufferId) : Memory :=
  match m.buffer? id with
  | none => m
  -- back to the capacity goes what the buffer was accounted for
  | some b => { m with buffers := m.buffers.filter (·.id ≠ id), allocated := m.allocated - b.size }

def mapBytes (m : Memory) (f : Buffer → Bytes) : Memory :=
  { m with buffers := m.buffers.map fun b => { b with bytes := f b } }

def write (m : Memory) (id : BufferId) (data : Bytes) : Except CommandFault Memory :=
  match m.buffer? id with
  | none => throw (.writeUnknown id.number)
  | some b =>
    if b.bytes.length < data.length then
      throw (.writeOverflow data.length id.number b.bytes.length)
    else pure (m.mapBytes fun b => if b.id = id then Bytes.overlay data b.bytes else b.bytes)

theorem ids_mapBytes (m : Memory) (f : Buffer → Bytes) :
    (m.mapBytes f).buffers.map Buffer.id = m.buffers.map Buffer.id := by
  simp [mapBytes]

theorem buffer?_mapBytes (m : Memory) (f : Buffer → Bytes) (id : BufferId) :
    (m.mapBytes f).buffer? id = (m.buffer? id).map fun b => { b with bytes := f b } := by
  simp only [mapBytes, buffer?, List.find?_map]
  rfl

/-- The front of a buffer, for a host object of `hostSize` bytes to take in at `offset`. -/
def read (m : Memory) (id : BufferId) (hostSize offset length : Nat) : Except CommandFault Bytes :=
  match m.buffer? id with
  | none => throw (.readUnknown id.number)
  | some b =>
    if b.bytes.length < length then throw (.readOverflow length id.number b.bytes.length)
    else if hostSize < offset + length then throw (.readOutsideHost offset (offset + length) hostSize)
    else pure (b.bytes.take length)

/-- The contents of the buffers that the arguments name, all of which have to be there. -/
def gather (m : Memory) (arguments : List BufferId) : Except CommandFault (List Bytes) :=
  match arguments.findIdx? fun id => (m.buffer? id).isNone with
  | some place => throw (.unknownArgument place ((arguments[place]?.map BufferId.number).getD 0))
  | none => pure (arguments.map fun id => ((m.buffer? id).map Buffer.bytes).getD [])

/-- Each buffer takes what was left in the first argument that names it. -/
def scatter (m : Memory) (arguments : List BufferId) (contents : List Bytes) : Memory :=
  m.mapBytes fun b =>
    match arguments.idxOf? b.id with
    | some place => contents.getD place b.bytes
    | none => b.bytes

/-- Runs a kernel on the named buffers; arguments that name one buffer get a copy each. -/
def run (m : Memory) (kernel : Kernel) (arguments : List BufferId) (geometry : Geometry) :
    Option CommandFault × Memory :=
  match m.gather arguments with
  | .error fault => (some fault, m)
  | .ok contents =>
    let (contents, fault) := (kernel { geometry, arguments := contents }).run contents
    -- what the kernel wrote stays, even if it fails
    (fault.map .kernel, m.scatter arguments contents)

end Memory
end Offload
