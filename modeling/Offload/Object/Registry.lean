import Offload.Object.Numeric
import Offload.Error

/-!
The registry of host objects: their bytes, and for each the device that holds its latest copy.
Releasing an object removes its record; its bytes stay for those who still hold it.
-/

namespace Offload

/-- Which device holds the latest copy of an object, and whether the host's copy agrees with it. -/
structure Ownership where
  owner : Option Nat := none
  shared : Bool := false
  deriving DecidableEq, Repr

def Ownership.isExclusive (o : Ownership) : Bool :=
  o.owner.isSome && !o.shared

/-- `record` is there until the object is released. -/
structure Entry where
  kind : ObjectKind
  bytes : Bytes
  record : Option Ownership := some {}
  deriving DecidableEq, Repr

/-- The object with handle `n + 1` is entry `n`. -/
structure Registry where
  entries : List Entry := []
  deriving DecidableEq, Repr

namespace Registry

def entry? (r : Registry) (h : Handle) : Option Entry :=
  match h.id with
  | 0 => none
  | n + 1 => r.entries[n]?

def modifyEntry (r : Registry) (h : Handle) (f : Entry → Entry) : Registry :=
  match h.id with
  | 0 => r
  | n + 1 => { entries := r.entries.modify n f }

def register (r : Registry) (kind : ObjectKind) (bytes : Bytes) : HostObject × Registry :=
  ({ handle := ⟨r.entries.length + 1⟩, kind }, { entries := r.entries ++ [{ kind, bytes }] })

def size (r : Registry) : Nat :=
  r.entries.countP (·.record.isSome)

def record? (r : Registry) (h : Handle) : Option Ownership :=
  (r.entry? h).bind Entry.record

def resolve? (r : Registry) (h : Handle) : Option HostObject :=
  match r.entry? h with
  | some { kind, record := some _, .. } => some { handle := h, kind }
  | _ => none

def release (r : Registry) (h : Handle) : Bool × Registry :=
  ((r.record? h).isSome, r.modifyEntry h fun e => { e with record := none })

def setOwner (r : Registry) (h : Handle) (device : Nat) (shared : Bool) : Registry :=
  -- nothing is recorded for an object that was released
  r.modifyEntry h fun e => { e with record := e.record.map fun _ => { owner := some device, shared } }

def clearOwner (r : Registry) (h : Handle) : Registry :=
  r.modifyEntry h fun e => { e with record := e.record.map fun _ => {} }

/-- The bytes of an object, also after its release. -/
def bytes (r : Registry) (h : Handle) : Bytes :=
  ((r.entry? h).map Entry.bytes).getD []

-- The bytes of an object have nothing to do with who owns it, or whether it is still registered.

theorem bytes_modifyEntry {r : Registry} {f : Entry → Entry} (hf : ∀ e, (f e).bytes = e.bytes)
    (h k : Handle) : (r.modifyEntry h f).bytes k = r.bytes k := by
  obtain ⟨n⟩ := h
  obtain ⟨m⟩ := k
  cases n with
  | zero => rfl
  | succ n =>
    cases m with
    | zero => rfl
    | succ m =>
      simp only [bytes, entry?, modifyEntry, List.getElem?_modify]
      split <;> cases r.entries[m]? <;> simp [hf]

theorem bytes_setOwner (r : Registry) (h k : Handle) (device : Nat) (shared : Bool) :
    (r.setOwner h device shared).bytes k = r.bytes k := by
  unfold setOwner
  apply bytes_modifyEntry
  intro e
  rfl

theorem bytes_clearOwner (r : Registry) (h k : Handle) : (r.clearOwner h).bytes k = r.bytes k := by
  unfold clearOwner
  apply bytes_modifyEntry
  intro e
  rfl

theorem bytes_release (r : Registry) (h k : Handle) : (r.release h).2.bytes k = r.bytes k := by
  unfold release
  apply bytes_modifyEntry
  intro e
  rfl

def byteLength (r : Registry) (h : Handle) : Nat :=
  (r.bytes h).length

def deliver (r : Registry) (h : Handle) (offset : Nat) (data : Bytes) : Registry :=
  r.modifyEntry h fun e => { e with bytes := Bytes.overlayAt offset data e.bytes }

/-- The `length` bytes of an object from `offset` on, all of which it has to have. -/
def window (r : Registry) (o : HostObject) (offset length : Nat) : Except Error Bytes :=
  let bytes := r.bytes o.handle
  if offset + length ≤ bytes.length then pure (Bytes.window offset length bytes)
  else throw (.config (.outsideObject offset length o.handle bytes.length))

def checkElement (o : HostObject) (t : Numeric) : Except Error Unit :=
  match o.kind with
  | .array e => if e = t.element then pure () else throw (.config (.wrongElement o.handle e t.element))
  -- a scalar does not say what it holds
  | .scalar => pure ()

def numbers (r : Registry) (o : HostObject) (t : Numeric) : Except Error (List Nat) := do
  checkElement o t
  return t.decode (r.bytes o.handle)

def replace (r : Registry) (o : HostObject) (t : Numeric) (data : Bytes) : Except Error Registry := do
  checkElement o t
  let size := r.byteLength o.handle
  if data.length = size then pure (r.modifyEntry o.handle fun e => { e with bytes := data })
  else throw (.config (.wrongLength o.handle size data.length))

def describe (r : Registry) : String :=
  Text.record "ObjectRegistry" [("objects", toString r.size)]

end Registry
end Offload
