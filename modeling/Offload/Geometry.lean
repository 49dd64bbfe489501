import Offload.Config

/-!
The shape of a launch: how many work items there are along each dimension, and how many of them form
a group. The class of a device decides how groups are chosen.
-/

namespace Offload

inductive DeviceClass
  | gpu
  | cpu
  /-- Devices with a fixed group shape. -/
  | constrained
  deriving DecidableEq, Repr

namespace DeviceClass

def all : List DeviceClass :=
  [.gpu, .cpu, .constrained]

def name : DeviceClass → String
  | .gpu => "Gpu"
  | .cpu => "Cpu"
  | .constrained => "Constrained"

def toJson (c : DeviceClass) : Json :=
  .text c.name

def ofJson? : Json → Option DeviceClass :=
  Json.choice? name all

end DeviceClass

def usualMaxItems : Vector Nat 3 :=
  #v[1024, 1024, 64]

structure Limits where
  deviceClass : DeviceClass := .gpu
  /-- The most work items of a group along each of the three dimensions. -/
  maxItems : Vector Nat 3 := usualMaxItems
  computeUnits : Nat
  maxGroupSize : Nat := 1024
  deriving DecidableEq, Repr

def Limits.describe (l : Limits) : String :=
  Text.record "DeviceLimits"
    [("class", l.deviceClass.name), ("max_work_item_sizes", Text.naturals l.maxItems.toList),
      ("max_compute_units", toString l.computeUnits), ("max_work_group_size", toString l.maxGroupSize)]

structure Tuning where
  gpuBlockX : Nat
  gpuBlock2dX : Nat
  gpuBlock2dY : Nat
  gpuWarp : Nat
  adjustIrregular : Bool
  cpuBlock : Nat
  fpgaWarp : Nat
  fpgaLocalWork : Nat
  deriving DecidableEq, Repr

def Config.tuning (c : Config) : Tuning where
  gpuBlockX := c.gpuBlockX
  gpuBlock2dX := c.gpuBlock2dX
  gpuBlock2dY := c.gpuBlock2dY
  gpuWarp := c.gpuWarp
  adjustIrregular := c.adjustIrregular
  cpuBlock := c.cpuBlock
  fpgaWarp := c.fpgaWarp
  fpgaLocalWork := c.fpgaLocalWork

/-- Refuses numbers that a launch would be divided by. -/
def Tuning.validate (t : Tuning) : Except Error Unit :=
  let divisors := [("gpu_warp", t.gpuWarp), ("fpga_warp", t.fpgaWarp), ("fpga_local_work", t.fpgaLocalWork)]
  match divisors.find? (·.2 == 0) with
  | some (name, _) => throw (.config (.zeroTunable name))
  | none => pure ()

/-- Work items along each dimension, and work items of a group along each dimension. -/
structure Geometry where
  global : List Nat
  group : List Nat
  deriving DecidableEq, Repr

namespace Geometry

def rank (g : Geometry) : Nat :=
  g.global.length

/-- Groups along each dimension; an empty group is counted as none. -/
def groups (g : Geometry) : List Nat :=
  g.global.zipWith (· / ·) g.group

def label (g : Geometry) : String :=
  "global=" ++ Text.naturals g.global ++ " local=" ++ Text.naturals g.group

def describe (g : Geometry) : String :=
  Text.record "WorkGeometry" [("global", Text.naturals g.global), ("local", Text.naturals g.group)]

def toJson (g : Geometry) : Json :=
  .record [("global", .naturals g.global), ("local", .naturals g.group)]

def ofJson? (j : Json) : Option Geometry := do
  let [some global, some group] ← j.allFields? ["global", "local"] | none
  some {
    global := ← global.list? (Json.natural? wordLimit)
    group := ← group.list? (Json.natural? wordLimit) }

end Geometry

/-- The largest divisor of `n` that is at most the given number, found by counting down. -/
def divisorDownFrom (n : Nat) : Nat → Nat
  | 0 => 0
  | k + 1 => if n % (k + 1) = 0 then k + 1 else divisorDownFrom n k

/-- The largest divisor of `global` that is at most `cap`, and smaller than `global` if `cap` equals it. -/
def largestDivisor (global cap : Nat) : Nat :=
  -- halved, a single group does not cover the whole range
  let cap := if cap = global then cap / 2 else cap
  divisorDownFrom global (max (min cap global) 1)

/-- The least multiple of `multiple` that is at least `n`. -/
def roundUp (n multiple : Nat) : Nat :=
  if n % multiple = 0 then n else (n / multiple + 1) * multiple

namespace Geometry

/-- The group sizes for `global`, where `block` is the most that is wanted along a dimension. -/
def divide (global : List Nat) (limits : Limits) (block : Nat → Nat) : Geometry where
  global
  group := global.mapIdx fun dimension n =>
    largestDivisor n (min (limits.maxItems.toList.getD dimension 0) (block dimension))

/-- The group size that is wanted along a dimension of a launch of the given rank. -/
def gpuBlock (t : Tuning) (rank dimension : Nat) : Nat :=
  if rank = 1 then t.gpuBlockX else if dimension = 0 then t.gpuBlock2dX else t.gpuBlock2dY

def gpu (base : List Nat) (limits : Limits) (t : Tuning) : Geometry :=
  let global := if t.adjustIrregular then base.map (roundUp · t.gpuWarp) else base
  divide global limits (gpuBlock t global.length)

def cpu (base : List Nat) (limits : Limits) (t : Tuning) : Geometry :=
  divide base limits fun _ => t.cpuBlock

def constrainedGroup (t : Tuning) (n : Nat) : Except Error Nat :=
  let size := divisorDownFrom n (min t.fpgaLocalWork n)
  if size < t.fpgaLocalWork then throw (.config (.belowLocalWork t.fpgaLocalWork n)) else pure size

def constrained (base : List Nat) (t : Tuning) : Except Error Geometry := do
  let global := base.map (roundUp · t.fpgaWarp)
  return { global, group := ← global.mapM (constrainedGroup t) }

/-- The shape of a launch over `domain`; a positive `threads` replaces the size of every dimension. -/
def launch (domain : List Nat) (threads : Nat) (limits : Limits) (t : Tuning) :
    Except Error Geometry := do
  t.validate
  if domain.length = 0 ∨ 3 < domain.length then throw (.config (.unsupportedRank domain.length))
  let base := domain.map fun n => if 0 < threads then threads else n
  if let some dimension := base.findIdx? (· == 0) then throw (.config (.emptyDomain dimension))
  match limits.deviceClass with
  | .gpu => return gpu base limits t
  | .cpu => return cpu base limits t
  | .constrained => constrained base t

end Geometry
end Offload
