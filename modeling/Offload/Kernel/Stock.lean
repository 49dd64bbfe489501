import Offload.Kernel
import Offload.Object.Numeric

/-!
Ready-made kernels: element-wise sums, copies, and kernels that report what they see.
-/

namespace Offload.Kernel

/-- The numbers that an argument holds; a last piece that is too short is filled with zeros. -/
def read (v : Invocation) (t : Numeric) (argument : Nat) : Except KernelFault (List Nat) := do
  return t.decode (← v.bytes argument)

def writing (argument : Nat) (data : Bytes) : Script :=
  { writes := [(argument, data)] }

/-- Sums the first two arguments into the third, element by element over the first dimension. -/
def vectorAdd (t : Numeric) : Kernel := fun v => .ofExcept do
  if v.arguments.length ≠ 3 then
    throw (.reported s!"vector add expects 3 arguments, got {v.arguments.length}")
  let a ← read v t 0
  let b ← read v t 1
  return writing 2 (t.encode ((a.zipWith t.add b).take (v.globalSize 0)))

def idle : Kernel := fun _ => {}

def failing (text : String) : Kernel := fun _ =>
  .failing (.reported text)

def crashing : Kernel := fun _ =>
  .failing .crashed

def describing : Kernel := fun v =>
  .failing (.reported v.describe)

def probing (argument : Nat) : Kernel := fun v => .ofExcept do
  let _ ← v.bytes argument
  return {}

def increment : Kernel := fun v =>
  { writes := v.arguments.mapIdx fun argument bytes => (argument, bytes.map (· + 1)) }

def copy : Kernel := fun v => .ofExcept do
  return writing 1 (← v.bytes 0)

def lastArgument (v : Invocation) : Nat :=
  v.arguments.length - 1

/-- Writes the shape of the launch into the last argument, one 64-bit word a number. -/
def shape : Kernel := fun v =>
  let dimensions := [0, 1, 2]
  let numbers := [v.geometry.rank, v.workItems, v.arguments.length] ++
    dimensions.map v.globalSize ++ dimensions.map v.groupSize
  writing (lastArgument v) (Numeric.u64.encode numbers)

/-- Writes the byte length of every argument into the last one, one 32-bit word a number. -/
def sizes : Kernel := fun v =>
  writing (lastArgument v) (Numeric.u32.encode (v.arguments.map List.length))

/-- Multiplies the second argument by the first number of the first, into the third. -/
def scale : Kernel := fun v => .ofExcept do
  let factors ← read v .f32 0
  let some factor := factors.head? | throw .crashed
  let numbers ← read v .f32 1
  return writing 2 (Numeric.f32.encode (numbers.map (Numeric.f32.mul · factor)))

/-- One plus the sum of all arguments but the last, written to the last, for each work item. -/
def sumPlusOne : Kernel := fun v => .ofExcept do
  let ones := List.replicate (v.globalSize 0) 1
  let terms ← (List.range (lastArgument v)).mapM (read v .u64)
  return writing (lastArgument v) (Numeric.u64.encode (terms.foldl addOnto ones))
where
  /-- Adds `terms` to the front of `sums`. -/
  addOnto (sums terms : List Nat) : List Nat :=
    sums.zipWith Numeric.u64.add terms ++ sums.drop terms.length

end Offload.Kernel
