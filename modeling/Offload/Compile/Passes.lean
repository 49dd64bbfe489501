import Offload.Context

/-!
Cutting the work into passes: all of it at once, or a batch of bytes of every bound object at a time.
-/

namespace Offload

/-- The window of one pass. Length 0 stands for the whole object, 0 threads for a task's own domain. -/
structure Pass where
  offset : Nat := 0
  length : Nat := 0
  threads : Nat := 0
  deriving DecidableEq, Repr

structure BatchShape where
  element : Element
  total : Nat
  deriving DecidableEq, Repr

namespace Pass

def whole : Pass :=
  {}

def window (element : Element) (offset length : Nat) : Pass :=
  { offset, length, threads := length / element.size }

/-- The shape of the objects of `bindings`, which have to agree with each other and with `shape`. -/
def commonShape (r : Registry) :
    List Binding → Option BatchShape → Except Error (Option BatchShape)
  | [], shape => pure shape
  | b :: bindings, shape =>
    match b.object.kind.element? with
    | none => throw (.config (.scalarBatch b.object.handle))
    | some element =>
      let current : BatchShape := { element, total := r.byteLength b.object.handle }
      if shape.all (· = current) then commonShape r bindings (some current)
      else throw (.config .mixedBatch)

/-- Full batches as long as they last, and then what is left. -/
def cut (shape : BatchShape) (batch : Nat) : List Pass :=
  let chunks := shape.total / batch
  let remainder := shape.total % batch
  -- a batch larger than the objects is one pass over all of them
  if chunks = 0 then [{ threads := shape.total / shape.element.size }]
  else
    let full := (List.range chunks).map fun i => window shape.element (i * batch) batch
    if 0 < remainder then full ++ [window shape.element (chunks * batch) remainder] else full

def plan (r : Registry) (c : Context) : Option Nat → Except Error (List Pass)
  | none => return [whole]
  | some batch => do
    if batch = 0 then throw (.config .zeroBatch)
    let some shape ← commonShape r c.bindings none | throw (.config .emptyBatch)
    if batch % shape.element.size ≠ 0 then throw (.config (.unevenBatch batch shape.element))
    return cut shape batch

end Pass
end Offload
